import StackMachine.Proofs.Grammar
import StackMachine.Proofs.Lines

/-!
# Faults are tagged once

A fault is given a line by the stage that raises it. On its way to the outside other stages may try
to give it theirs, but the first tag stays and nothing is put around it.

* `Tag`, `Fault.tag`: a line and the stage that names it; `Fault.wrap`: a fault directly in a tag.
* `foldl_tag_of_line?_isSome`, **`foldl_tag_of_untagged`**: any number of tags in turn.
* `Fault.Within`: a fault that is left when outer tags are taken off; **`within_untagged_iff`**: the
  only one without a line is the root.
* `Program.exists_of_load_eq_error`, `Machine.exists_of_step_eq_error`: the faults of loading and of
  a step.
* **`tagged_once`**: all of it, and what it means for the faults of every stage.
-/

namespace StackMachine

/-! ## Tags -/

/-- The stages that tag faults. -/
inductive Stage
  | assembly
  | runtime
  deriving DecidableEq, Repr

/-- A line, counted from 1, and the stage that names it. -/
structure Tag where
  stage : Stage
  line : Nat
  deriving DecidableEq, Repr

namespace Fault

/-- Tags a fault as the stage does it. -/
def tag (f : Fault) (t : Tag) : Fault :=
  match t.stage with
  | .assembly => f.atLine t.line
  | .runtime => f.atRuntimeLine t.line

/-- A fault directly in a tag, whether it has a line or not. -/
def wrap (f : Fault) (t : Tag) : Fault :=
  match t.stage with
  | .assembly => assembly t.line f
  | .runtime => runtime t.line f

variable {f g : Fault} {t : Tag}

theorem tag_of_line?_isSome (h : f.line?.isSome) (t : Tag) : f.tag t = f := by
  unfold tag
  split
  · exact atLine_of_isSome h t.line
  · exact atRuntimeLine_of_isSome h t.line

theorem tag_cause (c : Cause) (t : Tag) : (cause c).tag t = (cause c).wrap t := by
  unfold tag wrap
  split <;> rfl

@[simp] theorem line?_wrap (f : Fault) (t : Tag) : (f.wrap t).line? = some t.line := by
  unfold wrap
  split <;> rfl

@[simp] theorem root_wrap (f : Fault) (t : Tag) : (f.wrap t).root = f.root := by
  unfold wrap
  split <;> rfl

@[simp] theorem root_tag (f : Fault) (t : Tag) : (f.tag t).root = f.root := by
  unfold tag
  split
  · exact root_atLine t.line f
  · exact root_atRuntimeLine t.line f

/-- The class of a fault is that of its root. -/
theorem kind_root (f : Fault) : f.kind = f.root.kind := by
  induction f with
  | cause c => rfl
  | assembly line g ih => exact ih
  | runtime line g ih => exact ih

/-! ## Tags in turn -/

theorem foldl_tag_of_line?_isSome (h : f.line?.isSome) (tags : List Tag) :
    tags.foldl tag f = f := by
  induction tags with
  | nil => rfl
  | cons t tags ih => rw [List.foldl_cons, tag_of_line?_isSome h, ih]

/-- **A fault without a line is wrapped once**, by the first of the tags. -/
theorem foldl_tag_of_untagged (h : f.line? = none) (tags : List Tag) :
    tags.foldl tag f = tags.head?.elim f f.wrap := by
  obtain ⟨c, rfl⟩ := line?_eq_none_iff.1 h
  cases tags with
  | nil => rfl
  | cons t tags =>
    have hline : ((cause c).wrap t).line?.isSome := by rw [line?_wrap]; rfl
    rw [List.foldl_cons, tag_cause, foldl_tag_of_line?_isSome hline]
    rfl

theorem root_foldl_tag (f : Fault) (tags : List Tag) : (tags.foldl tag f).root = f.root := by
  induction tags generalizing f with
  | nil => rfl
  | cons t tags ih => rw [List.foldl_cons, ih, root_tag]

theorem kind_foldl_tag (f : Fault) (tags : List Tag) : (tags.foldl tag f).kind = f.kind := by
  rw [kind_root, root_foldl_tag, ← kind_root]

/-! ## Behind the tags -/

/-- A fault, or what is left of it when some of its outer tags are taken off. -/
inductive Within : Fault → Fault → Prop
  | refl (f : Fault) : Within f f
  | wrap {f g : Fault} (t : Tag) : Within g f → Within g (f.wrap t)

theorem Within.root_eq (h : g.Within f) : g.root = f.root := by
  induction h with
  | refl => rfl
  | wrap t _ ih => rw [ih, root_wrap]

theorem within_root (f : Fault) : (cause f.root).Within f := by
  induction f with
  | cause c => exact .refl _
  | assembly line g ih => exact .wrap ⟨.assembly, line⟩ ih
  | runtime line g ih => exact .wrap ⟨.runtime, line⟩ ih

/-- **Behind the tags of a fault, its root is the only one without a line.** -/
theorem within_untagged_iff : g.Within f ∧ g.line? = none ↔ g = cause f.root := by
  constructor
  · rintro ⟨h, hline⟩
    obtain ⟨c, rfl⟩ := line?_eq_none_iff.1 hline
    exact congrArg cause h.root_eq
  · rintro rfl
    exact ⟨within_root f, rfl⟩

end Fault

/-! ## The faults of the stages -/

/-- An image cannot be read for an unknown opcode or because of the text of a record. -/
theorem Listing.exists_of_ofImage_eq_error {image : Bytes} {c : Cause}
    (h : ofImage image = .error c) : (∃ byte offset, c = .invalidOpcode byte offset) ∨
      ∃ offset reason, c = .undecodable offset reason := by
  obtain ⟨front, _ | ⟨b, rest⟩, rs, rfl, hrs, hs⟩ := exists_areRecords image
  · rw [List.append_nil, ofImage_of_areRecords hrs] at h
    cases h
  · rw [ofImage_of_stuck hrs hs] at h
    obtain rfl := Except.error.inj h
    unfold stuckFault
    split_ifs
    · exact Or.inl ⟨b, _, rfl⟩
    · exact Or.inr ⟨_, _, rfl⟩
    · exact Or.inr ⟨_, _, rfl⟩

/-- What a program that is put together fails with: the lack of a `BEGIN`, or a cause directly in
the tag of its line. -/
def Fault.OfBinding (f : Fault) : Prop :=
  f = .cause .missingBegin ∨ ∃ line c, f = .assembly line (.cause c)

theorem Program.ofBinding_of_ofListing {l : Listing} {f : Fault} (h : ofListing l = .error f) :
    f.OfBinding := by
  refine (exists_lineFault_of_ofListing h).imp_right ?_
  rintro ⟨k, r, c, _, _, rfl⟩
  exact ⟨k + 1, c, rfl⟩

theorem Program.ofBinding_of_assemble {source : String} {f : Fault}
    (h : assemble source = .error f) : f.OfBinding := by
  refine (atFault_of_assemble h).imp_right ?_
  rintro ⟨k, c, _, rfl⟩
  exact ⟨k + 1, c, rfl⟩

theorem Program.exists_of_load_eq_error {image : Bytes} {f : Fault} (h : load image = .error f) :
    f.OfBinding ∨ (∃ byte offset, f = .cause (.invalidOpcode byte offset)) ∨
      ∃ offset reason, f = .cause (.undecodable offset reason) := by
  unfold load at h
  split at h
  · next c hc =>
    obtain rfl := Except.error.inj h
    obtain ⟨byte, offset, rfl⟩ | ⟨offset, reason, rfl⟩ := Listing.exists_of_ofImage_eq_error hc
    · exact Or.inr (Or.inl ⟨byte, offset, rfl⟩)
    · exact Or.inr (Or.inr ⟨offset, reason, rfl⟩)
  · exact Or.inl (ofBinding_of_ofListing h)

/-- A step on byte streams fails with a cause directly in the tag of its line: no answer of the
console is tagged before. -/
theorem Machine.exists_of_step_eq_error {m : Machine} {s : Stream} {f : Fault}
    (h : (step Stream.console m s).1.1 = .error f) : ∃ c, f = .runtime (m.pc + 1) (.cause c) := by
  obtain ⟨_, _, hc | ⟨hline, hanswer⟩⟩ := fault_cases Stream.console h
  · exact hc
  · rw [Stream.untagged_of_answers hanswer] at hline
    cases hline

/-- **Faults are tagged once, by the stage that raised them.** Whatever tags it is given in turn, a
fault that has a line stays as it is, and one without is wrapped by the first tag; its root and its
class stay. The class is that of the root, which is the only fault without a line behind the tags.

So assembling fails with the lack of a `BEGIN`, or with a cause directly in the tag of a line;
loading with one of these, or with an opcode or a text that cannot be read; and a step on byte
streams with a cause directly in the tag of the line that was executed. -/
theorem tagged_once :
    (∀ (f : Fault) (tags : List Tag),
      (f.line?.isSome → tags.foldl Fault.tag f = f) ∧
      (f.line? = none → tags.foldl Fault.tag f = tags.head?.elim f f.wrap) ∧
      (tags.foldl Fault.tag f).root = f.root ∧ (tags.foldl Fault.tag f).kind = f.kind) ∧
    (∀ f : Fault, f.kind = (Fault.cause f.root).kind ∧ (Fault.cause f.root).line? = none ∧
      (Fault.cause f.root).root = f.root ∧
      ∀ g : Fault, g.Within f ∧ g.line? = none ↔ g = .cause f.root) ∧
    (∀ source f, Program.assemble source = .error f →
      f = .cause .missingBegin ∨ ∃ line c, f = .assembly line (.cause c)) ∧
    (∀ image f, Program.load image = .error f →
      (f = .cause .missingBegin ∨ ∃ line c, f = .assembly line (.cause c)) ∨
      (∃ byte offset, f = .cause (.invalidOpcode byte offset)) ∨
      ∃ offset reason, f = .cause (.undecodable offset reason)) ∧
    ∀ m s f, (Machine.step Stream.console m s).1.1 = .error f →
      ∃ c, f = .runtime (m.pc + 1) (.cause c) := by
  refine ⟨fun f tags => ?_, fun f => ?_, fun source f => Program.ofBinding_of_assemble,
    fun image f => Program.exists_of_load_eq_error, fun m s f => Machine.exists_of_step_eq_error⟩
  · exact ⟨fun h => Fault.foldl_tag_of_line?_isSome h tags,
      fun h => Fault.foldl_tag_of_untagged h tags, Fault.root_foldl_tag f tags,
      Fault.kind_foldl_tag f tags⟩
  · exact ⟨Fault.kind_root f, rfl, rfl, fun g => Fault.within_untagged_iff⟩

/-- A fault in two tags keeps them, and one without a line is given the first of two. A text, an
image and a program that fail. -/
theorem tagged_once_two_tags :
    let f : Fault := .assembly 3 (.runtime 5 (.cause .emptyStack))
    let tags : List Tag := [⟨.runtime, 8⟩, ⟨.assembly, 2⟩]
    let bad : Fault := .assembly 2 (.cause (.missingOperand .push))
    let image : Bytes := [0x00, 0x00, 0x0a]
    let unknown : Fault := .cause (.invalidOpcode 0x0a 2)
    let m : Machine := .start ⟨#[.begin, .pop], ⟨[⟨.begin, ""⟩, ⟨.pop, ""⟩]⟩, .empty, 1⟩
    tags.foldl Fault.tag f = f ∧ f.kind = .emptyAccess ∧
      (∀ g : Fault, g.Within f ∧ g.line? = none ↔ g = .cause .emptyStack) ∧
      tags.foldl Fault.tag (.cause .divisionByZero) = .runtime 8 (.cause .divisionByZero) ∧
      Program.assemble "begin\npush" = .error bad ∧
      (bad = .cause .missingBegin ∨ ∃ line c, bad = .assembly line (.cause c)) ∧
      Program.load image = .error unknown ∧
      (unknown.OfBinding ∨ (∃ byte offset, unknown = .cause (.invalidOpcode byte offset)) ∨
        ∃ offset reason, unknown = .cause (.undecodable offset reason)) ∧
      (Machine.step Stream.console m {}).1.1 = .error (.runtime 2 (.cause .emptyStack)) ∧
      ∃ c, Fault.runtime 2 (.cause .emptyStack) = .runtime (m.pc + 1) (.cause c) := by
  intro f tags bad image unknown m
  obtain ⟨htags, hroot, hassemble, hload, hstep⟩ := tagged_once
  have hbad : Program.assemble "begin\npush" = .error bad := by decide +kernel
  have himage : Program.load image = .error unknown := by decide +kernel
  have hm : (Machine.step Stream.console m {}).1.1 = .error (.runtime 2 (.cause .emptyStack)) := rfl
  exact ⟨(htags f tags).1 rfl, (hroot f).1, (hroot f).2.2.2, (htags _ tags).2.1 rfl, hbad,
    hassemble _ _ hbad, himage, hload _ _ himage, hm, hstep _ _ _ hm⟩

end StackMachine
