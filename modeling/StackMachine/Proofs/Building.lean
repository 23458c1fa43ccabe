import Mathlib.Data.List.Basic
import StackMachine.Build

/-!
# What a build leaves behind

A build writes one file. Directories are never written, so the path of the output leads to the same
place after writing, and what is removed where writing failed is what was written.

* `FileTree.target_set`: writing a file does not change where paths lead.
* `FileTree.read_set`, `FileTree.remove_set`: what was written is read and removed.
* `Build.Ended`: the five ways a build can end; `Build.ended_run`.
* `Build.Opens`: the file that a build opens; **`Build.Ended.keeps_iff`**: when a build that fails
  keeps all others.
* **`build_keeps_files`**: all of it; a build that does not fail writes the image and nothing else.
-/

namespace StackMachine

namespace FileTree

variable {t : FileTree} {place other : Place} {path name : String} {content : Bytes}
  {l l' : Location} {names : List String} {target : Target} {e : PathError}

/-! ## Where paths lead -/

theorem enter_inside_eq_ok_iff :
    (Location.inside place).enter t name = .ok l' ↔
      t.node? (place ++ [name]) = some .directory ∧ l' = .inside (place ++ [name]) := by
  simp only [Location.enter]
  rcases t.node? (place ++ [name]) with _ | _ | _ <;> simp [eq_comm]

theorem enter_set (h : t.node? place ≠ some .directory) (hl : l.enter t name = .ok l') :
    l.enter (t.set place (.file content)) name = .ok l' := by
  cases l with
  | inside q =>
    obtain ⟨hdir, rfl⟩ := enter_inside_eq_ok_iff.1 hl
    -- a directory is entered, and the place of the file holds none
    have hne : q ++ [name] ≠ place := by
      rintro rfl
      exact h hdir
    exact enter_inside_eq_ok_iff.2 ⟨(node?_set_of_ne t _ hne).trans hdir, rfl⟩
  | above | root | devices => exact hl

theorem walk_set (h : t.node? place ≠ some .directory) (hw : t.walk l names = .ok l') :
    (t.set place (.file content)).walk l names = .ok l' := by
  fun_induction walk t l names with
  | case1 => exact hw
  | case2 l names ih => exact ih hw
  | case3 l names ih => exact ih hw
  | case4 => cases hw
  | case5 l name names hdot hup l₁ henter ih =>
    simp only [walk, enter_set h henter]
    exact ih hw

theorem target_eq_ok_iff : t.target path = .ok target ↔
    path ≠ "" ∧ ∃ l name, t.walk (startOf path) (pathNames path).dropLast = .ok l ∧
      (pathNames path).getLast? = some name ∧ name ≠ "." ∧ name ≠ ".." ∧
      l.target name = .ok target := by
  unfold FileTree.target
  split_ifs with hempty
  · simp [hempty]
  · rcases t.walk (startOf path) (pathNames path).dropLast with e | l
    · simp
    · simp only [Except.ok.injEq]
      split <;> simp_all

/-- **Writing a file does not change where paths lead.** -/
theorem target_set (h : t.node? place ≠ some .directory) (ht : t.target path = .ok target) :
    (t.set place (.file content)).target path = .ok target := by
  obtain ⟨hempty, l, name, hw, hlast⟩ := target_eq_ok_iff.1 ht
  exact target_eq_ok_iff.2 ⟨hempty, l, name, walk_set h hw, hlast⟩

theorem ne_nil_of_target (ht : t.target path = .ok (.file place)) : place ≠ [] := by
  obtain ⟨_, l, name, _, _, _, _, hl⟩ := target_eq_ok_iff.1 ht
  cases l with
  | inside q =>
    cases hl
    simp
  | above | root => cases hl
  | devices =>
    simp only [Location.target] at hl
    split_ifs at hl
    cases hl

/-! ## Files to read and to write -/

theorem existing_eq_ok_file_iff : t.existing path = .ok (.file place) ↔
    t.target path = .ok (.file place) ∧ endsWithSlash path = false ∧
      ∃ content, t.node? place = some (.file content) := by
  unfold existing
  rcases t.target path with e | q | _
  · simp
  · rcases hq : t.node? q with _ | _ | content
    · grind
    · grind
    · grind
  · grind

theorem writable_eq_ok_file_iff : t.writable path = .ok (.file place) ↔
    t.target path = .ok (.file place) ∧ endsWithSlash path = false ∧
      t.node? place ≠ some .directory := by
  unfold writable
  rcases t.target path with e | q | _
  · simp
  · grind
  · grind

theorem target_of_writable (h : t.writable path = .ok target) : t.target path = .ok target := by
  unfold writable at h
  grind

theorem writable_of_existing (h : t.existing path = .ok (.file place)) :
    t.writable path = .ok (.file place) := by
  obtain ⟨ht, hslash, content, hfile⟩ := existing_eq_ok_file_iff.1 h
  refine writable_eq_ok_file_iff.2 ⟨ht, hslash, ?_⟩
  rw [hfile]
  exact nofun

theorem existing_set (h : t.writable path = .ok (.file place)) :
    (t.set place (.file content)).existing path = .ok (.file place) := by
  obtain ⟨ht, hslash, hdir⟩ := writable_eq_ok_file_iff.1 h
  exact existing_eq_ok_file_iff.2
    ⟨target_set hdir ht, hslash, content, node?_set_self t _ (ne_nil_of_target ht)⟩

/-- **What was written is read.** -/
theorem read_set (h : t.writable path = .ok (.file place)) :
    (t.set place (.file content)).read path = .ok content := by
  have hne := ne_nil_of_target (target_of_writable h)
  simp only [read, existing_set h, content?, node?_set_self t _ hne]

theorem remove_of_existing (h : t.existing path = .ok (.file place)) :
    t.remove path = t.erase place := by
  simp only [remove, h]

theorem remove_of_not_existing (h : ∀ place, t.existing path ≠ .ok (.file place)) :
    t.remove path = t := by
  unfold remove
  split
  · next place hplace => exact absurd hplace (h place)
  · rfl

theorem remove_set (h : t.writable path = .ok (.file place)) :
    (t.set place (.file content)).remove path = (t.set place (.file content)).erase place :=
  remove_of_existing (existing_set h)

theorem node?_remove_of_ne (h : t.writable path ≠ .ok (.file other)) :
    (t.remove path).node? other = t.node? other := by
  by_cases hex : ∃ place, t.existing path = .ok (.file place)
  · obtain ⟨place, hplace⟩ := hex
    have hne : other ≠ place := by
      rintro rfl
      exact h (writable_of_existing hplace)
    rw [remove_of_existing hplace, node?_erase_of_ne t hne]
  · rw [remove_of_not_existing fun place hplace => hex ⟨place, hplace⟩]

theorem node?_remove_self (h : t.writable path = .ok (.file place)) :
    (t.remove path).node? place = none := by
  obtain ⟨ht, hslash, hdir⟩ := writable_eq_ok_file_iff.1 h
  cases hnode : t.node? place with
  | none =>
    rw [remove_of_not_existing fun place' hex => ?_, hnode]
    obtain rfl := Target.file.inj (Except.ok.inj (h.symm.trans (writable_of_existing hex)))
    obtain ⟨_, _, content, hfile⟩ := existing_eq_ok_file_iff.1 hex
    exact absurd (hnode.symm.trans hfile) nofun
  | some node =>
    cases node with
    | directory => exact absurd hnode hdir
    | file content =>
      rw [remove_of_existing (existing_eq_ok_file_iff.2 ⟨ht, hslash, content, hnode⟩),
        node?_erase_self t (ne_nil_of_target ht)]

theorem remove_of_writable_error (h : t.writable path = .error e) : t.remove path = t := by
  refine remove_of_not_existing fun place hplace => ?_
  rw [writable_of_existing hplace] at h
  cases h

theorem node?_store_of_ne (h : target ≠ .file other) :
    (t.store content target).node? other = t.node? other := by
  cases target with
  | file place =>
    have hne : other ≠ place := by
      rintro rfl
      exact h rfl
    exact node?_set_of_ne t _ hne
  | nullDevice => rfl

/-- Where writing broke off, no part of the file is left. -/
theorem node?_remove_store (h : t.writable path = .ok target) :
    ((t.store content target).remove path).node? other =
      if target = .file other then none else t.node? other := by
  cases target with
  | file place =>
    have hne := ne_nil_of_target (target_of_writable h)
    rw [store, remove_set h]
    split_ifs with heq
    · cases heq
      exact node?_erase_self _ hne
    · have hother : other ≠ place := by
        rintro rfl
        exact heq rfl
      rw [node?_erase_of_ne _ hother, node?_set_of_ne t _ hother]
  | nullDevice =>
    have hnull : t.writable path ≠ .ok (.file other) := by
      rw [h]
      exact nofun
    rw [store, node?_remove_of_ne hnull]
    rfl

end FileTree

/-! ## How a build ends -/

namespace Build

open FileTree

variable {t : FileTree} {ending : WriteEnd} {source : String} {path : String} {p : Program}
  {place : Place} {answer : Except Fault String} {t' : FileTree} {f : Fault}

/-- The source file can be read as text, and the text assembles to a program. -/
def Assembles (t : FileTree) (source : String) (p : Program) : Prop :=
  ∃ bytes text, t.read source = .ok bytes ∧ ofUtf8? bytes = some text ∧
    Program.assemble text = .ok p

theorem ofSource_eq_ok_iff :
    (ofSource source ((t.read source).mapError PathError.message)).1 = .ok p ↔
      Assembles t source p := by
  unfold ofSource ofText Assembles
  rcases t.read source with e | bytes
  · simp [Except.mapError]
  · simp only [Except.mapError, Except.ok.injEq, exists_eq_left', exists_and_left]
    rcases ofUtf8? bytes with _ | text
    · simp
    · simp only [Option.some.injEq, exists_eq_left']
      rcases Program.assemble text with f | p' <;> simp

/-- A build opens the file at a place, to write to it: there is a program, the path of the output
leads there, and the disk does not refuse to open it. -/
def Opens (t : FileTree) (source path : String) (ending : WriteEnd) (place : Place) : Prop :=
  (∃ p, Assembles t source p) ∧ t.writable path = .ok (.file place) ∧
    ∀ reason, ending ≠ .refused reason

/-- The disk refuses to open the output of a build, and there is one already. -/
def RefusesExisting (t : FileTree) (source path : String) (ending : WriteEnd) : Prop :=
  ∃ reason place, ending = .refused reason ∧ (∃ p, Assembles t source p) ∧
    t.writable path = .ok (.file place) ∧ t.node? place ≠ none

/-- The ways a build can end, with its answer and the tree it leaves. -/
inductive Ended (t : FileTree) (source path : String) :
    WriteEnd → Except Fault String → FileTree → Prop
  /-- The source file is not read as text, or the text does not assemble. -/
  | unassembled {ending : WriteEnd} {f : Fault} : (∀ p, ¬ Assembles t source p) →
      Ended t source path ending (.error f) t
  /-- The path of the output leads to no file. -/
  | nowhere {ending : WriteEnd} {p : Program} {e : PathError} : Assembles t source p →
      t.writable path = .error e →
      Ended t source path ending (.error (.cause (.fileError path e.message))) t
  | written {p : Program} {target : Target} : Assembles t source p →
      t.writable path = .ok target →
      Ended t source path .success (.ok path) (t.store p.image target)
  | refused {p : Program} {target : Target} {reason : String} : Assembles t source p →
      t.writable path = .ok target →
      Ended t source path (.refused reason) (.error (.cause (.fileError path reason)))
        (t.remove path)
  | brokenOff {p : Program} {target : Target} {n : Nat} {reason : String} : Assembles t source p →
      t.writable path = .ok target →
      Ended t source path (.brokenOff n reason) (.error (.cause (.fileError path reason)))
        ((t.store (p.image.take n) target).remove path)

theorem ended_run (t : FileTree) (ending : WriteEnd) (source : String) (output : Option String) :
    Ended t source (output.getD (imagePath source)) ending (run t ending source output).answer
      (run t ending source output).tree := by
  have hiff := @ofSource_eq_ok_iff t source
  unfold run
  generalize output.getD (imagePath source) = path
  generalize ofSource source ((t.read source).mapError PathError.message) = read at hiff
  rcases read with ⟨f | p, entries⟩
  · refine .unassembled fun p hp => ?_
    have herror := hiff.2 hp
    cases herror
  · have hp : Assembles t source p := hiff.1 rfl
    simp only [write]
    rcases hw : t.writable path with e | target
    · -- the removal behind the failed write finds no file either
      simp only [remove_of_writable_error hw]
      exact .nowhere hp hw
    · cases ending with
      | success => exact .written hp hw
      | refused reason => exact .refused hp hw
      | brokenOff n reason => exact .brokenOff hp hw

namespace Ended

/-- Every file but that of the output stays as it is. -/
theorem node?_eq (h : Ended t source path ending answer t')
    (hplace : t.writable path ≠ .ok (.file place)) : t'.node? place = t.node? place := by
  cases h with
  | unassembled | nowhere => rfl
  | written _ hw => exact node?_store_of_ne fun heq => hplace (heq ▸ hw)
  | refused _ hw => exact node?_remove_of_ne hplace
  | @brokenOff p target n reason _ hw =>
    have hne : target ≠ .file place := fun heq => hplace (heq ▸ hw)
    rw [node?_remove_store hw, if_neg hne]

theorem tree_eq_of_not_assembles (h : Ended t source path ending answer t')
    (hp : ∀ p, ¬ Assembles t source p) : t' = t := by
  cases h with
  | unassembled => rfl
  | nowhere h | written h | refused h | brokenOff h => exact absurd h (hp _)

theorem tree_eq_of_writable_error {e : PathError} (h : Ended t source path ending answer t')
    (he : t.writable path = .error e) : t' = t := by
  cases h with
  | unassembled | nowhere => rfl
  | written _ hw | refused _ hw | brokenOff _ hw =>
    rw [he] at hw
    cases hw

/-- Where a build with a program fails, there is no output. -/
theorem node?_eq_none (h : Ended t source path ending (.error f) t') (hp : Assembles t source p)
    (hw : t.writable path = .ok (.file place)) : t'.node? place = none := by
  cases h with
  | unassembled hp' => exact absurd hp (hp' p)
  | nowhere _ he =>
    rw [he] at hw
    cases hw
  | refused => exact node?_remove_self hw
  | brokenOff _ hw' =>
    obtain rfl := Except.ok.inj (hw.symm.trans hw')
    rw [node?_remove_store hw, if_pos rfl]

theorem tree_eq_of_refused {reason : String}
    (h : Ended t source path (.refused reason) answer t')
    (hw : t.writable path = .ok (.file place)) (hnone : t.node? place = none) : t' = t := by
  cases h with
  | unassembled | nowhere => rfl
  | refused =>
    refine remove_of_not_existing fun place' hex => ?_
    obtain ⟨ht, _, content, hfile⟩ := existing_eq_ok_file_iff.1 hex
    have heq := (target_of_writable hw).symm.trans ht
    cases heq
    rw [hnone] at hfile
    cases hfile

/-- **A build that fails keeps what it did not open**, unless that is an output which is there and
which the disk refuses to open. -/
theorem keeps_iff (h : Ended t source path ending (.error f) t') :
    (∀ place, ¬ Opens t source path ending place → t'.node? place = t.node? place) ↔
      ¬ RefusesExisting t source path ending := by
  constructor
  · rintro hkeeps ⟨reason, place, hrefused, ⟨p, hp⟩, hw, hthere⟩
    have hopens : ¬ Opens t source path ending place := fun ⟨_, _, hopened⟩ =>
      hopened reason hrefused
    exact hthere ((hkeeps place hopens).symm.trans (h.node?_eq_none hp hw))
  · intro hthere place hopens
    by_cases hw : t.writable path = .ok (.file place)
    · by_cases hp : ∃ p, Assembles t source p
      · -- the output was not opened, so the disk refused it, and it was not there
        obtain ⟨reason, hrefused⟩ : ∃ reason, ending = .refused reason := by
          by_contra hnot
          exact hopens ⟨hp, hw, fun reason heq => hnot ⟨reason, heq⟩⟩
        have hnone : t.node? place = none := by
          by_contra hsome
          exact hthere ⟨reason, place, hrefused, hp, hw, hsome⟩
        obtain ⟨p, hp⟩ := hp
        rw [h.node?_eq_none hp hw, hnone]
      · rw [h.tree_eq_of_not_assembles fun p hp' => hp ⟨p, hp'⟩]
    · exact h.node?_eq hw

theorem read_of_ok {out : String} (h : Ended t source path ending (.ok out) t') : out = path ∧
    ∃ p, Assembles t source p ∧ (t.target path ≠ .ok .nullDevice → t'.read path = .ok p.image) := by
  cases h with
  | @written p target hp hw =>
    refine ⟨rfl, p, hp, fun hnull => ?_⟩
    cases target with
    | file place => exact read_set hw
    | nullDevice => exact absurd (target_of_writable hw) hnull

theorem ok_iff (h : Ended t source path ending answer t') : (∃ out, answer = .ok out) ↔
    (∃ p, Assembles t source p) ∧ (∃ target, t.writable path = .ok target) ∧
      ending = .success := by
  cases h with
  | unassembled hp => simp [hp]
  | nowhere _ he => simp [he]
  | written hp hw => exact ⟨fun _ => ⟨⟨_, hp⟩, ⟨_, hw⟩, rfl⟩, fun _ => ⟨_, rfl⟩⟩
  | refused | brokenOff => simp

end Ended

end Build

open FileTree Build in
/-- **A build touches no file but its output**, whose path is that of the source with `.emu` behind
it unless another one is given. A build that fails keeps everything it did not open, exactly unless
the disk refuses to open an output that is there already: that one is removed. If the source cannot
be read or assembled, or the path of the output leads to no file, nothing changes at all, nor if the
disk refuses to open an output that is not there. No part of an image is left. A build that does not
fail answers the path of the output, where the image of the assembled program can be read unless it
went to the null device; and it does not fail if there is a program, a place for its image and no
failure to write. -/
theorem build_keeps_files (t : FileTree) (ending : WriteEnd) (source : String)
    (output : Option String) :
    let path := output.getD (source ++ ".emu")
    let r := run t ending source output
    (∀ place, t.writable path ≠ .ok (.file place) → r.tree.node? place = t.node? place) ∧
    (∀ f, r.answer = .error f →
      ((∀ place, ¬ Opens t source path ending place → r.tree.node? place = t.node? place) ↔
        ¬ RefusesExisting t source path ending) ∧
      ((∀ p, ¬ Assembles t source p) → r.tree = t) ∧
      (∀ e, t.writable path = .error e → r.tree = t) ∧
      ∀ place, t.writable path = .ok (.file place) →
        (∀ p, Assembles t source p → r.tree.node? place = none) ∧
        ∀ reason, ending = .refused reason → t.node? place = none → r.tree = t) ∧
    (∀ out, r.answer = .ok out → out = path ∧ ∃ p, Assembles t source p ∧
      (t.target path ≠ .ok .nullDevice → r.tree.read path = .ok p.image)) ∧
    ((∃ out, r.answer = .ok out) ↔ (∃ p, Assembles t source p) ∧
      (∃ target, t.writable path = .ok target) ∧ ending = .success) := by
  intro path r
  have h : Ended t source path ending r.answer r.tree := ended_run t ending source output
  refine ⟨fun place => h.node?_eq, fun f hf => ⟨?_, h.tree_eq_of_not_assembles,
    fun e => h.tree_eq_of_writable_error, fun place hw => ⟨fun p hp => ?_, ?_⟩⟩, fun out hout => ?_,
    h.ok_iff⟩
  · rw [hf] at h
    exact h.keeps_iff
  · rw [hf] at h
    exact h.node?_eq_none hp hw
  · intro reason hrefused hnone
    rw [hrefused] at h
    exact h.tree_eq_of_refused hw hnone
  · rw [hout] at h
    exact h.read_of_ok

open FileTree Build in
/-- A build removes a file that it did not open: an output that is there, and that the disk refuses
to open. -/
theorem build_keeps_files_not_where_refused :
    let t : FileTree := ⟨[(["s.asm"], .file (utf8 "BEGIN\nPUSH 3\nOUT\nEND\n")),
      (["out"], .file [1])]⟩
    let ending := WriteEnd.refused "Permission denied (os error 13)"
    let r := run t ending "s.asm" (some "out")
    (∃ f, r.answer = .error f) ∧ RefusesExisting t "s.asm" "out" ending ∧
      (∀ place, ¬ Opens t "s.asm" "out" ending place) ∧
      t.read "out" = .ok [1] ∧ r.tree.read "out" = .error .notFound := by
  intro t ending r
  let p : Program := ⟨#[.begin, .push 3, .write, .finish],
    ⟨[⟨.begin, ""⟩, ⟨.push, "3"⟩, ⟨.write, ""⟩, ⟨.finish, ""⟩]⟩, ⟨[], [], some 0, some 3⟩, 0⟩
  have hp : Assembles t "s.asm" p :=
    ⟨utf8 "BEGIN\nPUSH 3\nOUT\nEND\n", "BEGIN\nPUSH 3\nOUT\nEND\n", by decide +kernel,
      by decide +kernel, by decide +kernel⟩
  have hw : t.writable "out" = .ok (.file ["out"]) := by decide +kernel
  have hthere : t.node? ["out"] ≠ none := by decide +kernel
  have hrefused : r.answer =
      .error (.cause (.fileError "out" "Permission denied (os error 13)")) := by decide +kernel
  have hbefore : t.read "out" = .ok [1] := by decide +kernel
  have hgone : r.tree.read "out" = .error .notFound := by decide +kernel
  exact ⟨⟨_, hrefused⟩, ⟨_, ["out"], rfl, ⟨p, hp⟩, hw, hthere⟩,
    fun place hopens => hopens.2.2 _ rfl, hbefore, hgone⟩

end StackMachine
