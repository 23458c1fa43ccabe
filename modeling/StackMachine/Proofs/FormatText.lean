import Mathlib.Data.List.TakeWhile

/-!
# Format texts

A format text is literal text with placeholders in it. A brace that stands for itself is written
twice. Any other opening brace begins a placeholder: its argument, up to the next colon or closing
brace, and behind a colon a specification.

* `Format.Piece`: the pieces of a format text; `Piece.text`, `Piece.Fits`: how they are written.
* `Format.read?`: reads a format text from left to right.
* `Format.Reads`: format texts as a grammar; **`read?_eq_some_iff`**: reading follows it.
* `Format.render?`: the text that comes out, given what the arguments stand for.
-/

namespace StackMachine.Derive.Format

/-! ## Pieces -/

/-- A piece of a format text. -/
inductive Piece
  /-- A character that stands for itself. -/
  | literal (c : Char)
  /-- A value that is filled in, shown under a specification if there is one. -/
  | placeholder (argument : String) (spec : Option String)
  deriving DecidableEq, Repr

def isBrace (c : Char) : Bool :=
  c == '\x7b' || c == '\x7d'

/-- The characters that an argument is made of. -/
def isPlain (c : Char) : Bool :=
  !isBrace c && c != ':'

/-- The characters that align a value. -/
def isAlignment (c : Char) : Bool :=
  c == '<' || c == '^' || c == '>'

/-- How many characters a specification starts with that may be any: in front of an alignment stands
the character to fill with, and that may be a brace. -/
def fillLength : List Char → Nat
  | _ :: align :: _ => if isAlignment align then 2 else 0
  | _ => 0

namespace Piece

/-- How a piece is written. -/
def text : Piece → List Char
  | literal c => if isBrace c then [c, c] else [c]
  | placeholder argument none => '\x7b' :: argument.toList ++ ['\x7d']
  | placeholder argument (some spec) =>
    '\x7b' :: argument.toList ++ ':' :: spec.toList ++ ['\x7d']

/-- The text behind a colon is a specification, where `rest` follows the closing brace. -/
def IsSpec (spec rest : List Char) : Prop :=
  fillLength (spec ++ '\x7d' :: rest) ≤ spec.length ∧
    ∀ c ∈ spec.drop (fillLength (spec ++ '\x7d' :: rest)), isBrace c = false

/-- A piece can be written in front of `rest`. -/
def Fits (rest : List Char) : Piece → Prop
  | literal _ => True
  | placeholder argument spec => (∀ c ∈ argument.toList, isPlain c = true) ∧
      ∀ s, spec = some s → IsSpec s.toList rest

/-- The argument of a placeholder. -/
def argument? : Piece → Option String
  | literal _ => none
  | placeholder argument _ => some argument

end Piece

/-- The arguments of the placeholders. -/
def arguments (pieces : List Piece) : List String :=
  pieces.filterMap Piece.argument?

theorem mem_arguments_cons {piece : Piece} {pieces : List Piece} {name : String} :
    name ∈ arguments (piece :: pieces) ↔ piece.argument? = some name ∨ name ∈ arguments pieces := by
  simp [arguments, List.mem_filterMap]

/-! ## Reading -/

/-- Splits a text at its first brace, which must be a closing one. -/
def splitAtClosing (text : List Char) : Option (List Char × List Char) :=
  match text.dropWhile (!isBrace ·) with
  | '\x7d' :: behind => some (text.takeWhile (!isBrace ·), behind)
  | _ => none

/-- The specification behind a colon, and what is behind the closing brace. -/
def splitSpec (text : List Char) : Option (String × List Char) :=
  (splitAtClosing (text.drop (fillLength text))).map fun (body, behind) =>
    (String.ofList (text.take (fillLength text) ++ body), behind)

/-- The placeholder behind an opening brace, and what is behind its closing brace. -/
def placeholder? (text : List Char) : Option (Piece × List Char) :=
  match text.dropWhile isPlain with
  | '\x7d' :: behind => some (.placeholder (String.ofList (text.takeWhile isPlain)) none, behind)
  | ':' :: behind => (splitSpec behind).map fun (spec, behind) =>
      (.placeholder (String.ofList (text.takeWhile isPlain)) (some spec), behind)
  | _ => none

/-- The first piece of a text, and what is behind it. -/
def next? : List Char → Option (Piece × List Char)
  | [] => none
  | c :: rest =>
    if isBrace c then
      if rest.head? = some c then some (.literal c, rest.tail)
      else if c = '\x7b' then placeholder? rest
      else none
    else some (.literal c, rest)

section

variable {text body rest behind spec : List Char} {c : Char} {piece : Piece}

theorem isBrace_iff : isBrace c = true ↔ c = '\x7b' ∨ c = '\x7d' := by
  simp [isBrace]

theorem isPlain_iff : isPlain c = true ↔ c ≠ '\x7b' ∧ c ≠ '\x7d' ∧ c ≠ ':' := by
  simp [isPlain, isBrace, and_assoc]

/-- A text is cut where a property of its characters first fails. -/
theorem takeWhile_dropWhile_of_append {p : Char → Bool} (rest : List Char)
    (h : ∀ c ∈ body, p c = true) (hc : p c = false) : (body ++ c :: rest).takeWhile p = body ∧
      (body ++ c :: rest).dropWhile p = c :: rest := by
  rw [List.takeWhile_append_of_pos h, List.dropWhile_append_of_pos h,
    List.takeWhile_cons_of_neg (by simp [hc]), List.dropWhile_cons_of_neg (by simp [hc]),
    List.append_nil]
  exact ⟨rfl, rfl⟩

theorem splitAtClosing_eq_some_iff : splitAtClosing text = some (body, behind) ↔
    text = body ++ '\x7d' :: behind ∧ ∀ c ∈ body, isBrace c = false := by
  constructor
  · intro h
    unfold splitAtClosing at h
    split at h
    · next behind' hdrop =>
      obtain ⟨rfl, rfl⟩ := Prod.mk.inj (Option.some.inj h)
      refine ⟨?_, fun c hc => by simpa using List.mem_takeWhile_imp hc⟩
      rw [← hdrop, List.takeWhile_append_dropWhile]
    · cases h
  · rintro ⟨rfl, hbody⟩
    obtain ⟨htake, hdrop⟩ := takeWhile_dropWhile_of_append (p := (!isBrace ·)) (c := '\x7d')
      behind (by simpa using hbody) (by decide)
    simp only [splitAtClosing, htake, hdrop]

theorem fillLength_le_length : fillLength text ≤ text.length := by
  unfold fillLength
  split
  · split <;> simp
  · exact Nat.zero_le _

theorem splitSpec_eq_some_iff {spec : String} : splitSpec text = some (spec, behind) ↔
    text = spec.toList ++ '\x7d' :: behind ∧ Piece.IsSpec spec.toList behind := by
  constructor
  · intro h
    obtain ⟨⟨body, behind'⟩, hsplit, heq⟩ := Option.map_eq_some_iff.1 h
    obtain ⟨rfl, rfl⟩ := Prod.mk.inj heq
    obtain ⟨hdrop, hbody⟩ := splitAtClosing_eq_some_iff.1 hsplit
    have htext : text = text.take (fillLength text) ++ body ++ '\x7d' :: behind' := by
      rw [List.append_assoc, ← hdrop, List.take_append_drop]
    have hlength : (text.take (fillLength text)).length = fillLength text :=
      List.length_take_of_le fillLength_le_length
    rw [String.toList_ofList]
    refine ⟨htext, ?_, ?_⟩
    · rw [← htext, List.length_append, hlength]
      exact Nat.le_add_right _ _
    · rw [← htext, List.drop_left' hlength]
      exact hbody
  · rintro ⟨rfl, hle, hbody⟩
    rw [splitSpec, List.drop_append_of_le_length hle, List.take_append_of_le_length hle,
      splitAtClosing_eq_some_iff.2 ⟨rfl, hbody⟩]
    simp only [Option.map_some, List.take_append_drop, String.ofList_toList]

theorem placeholder?_eq_some_iff : placeholder? text = some (piece, rest) ↔
    piece.Fits rest ∧ '\x7b' :: text = piece.text ++ rest ∧ piece.argument?.isSome := by
  have hplain : ∀ c ∈ (String.ofList (text.takeWhile isPlain)).toList, isPlain c = true := by
    intro c hc
    rw [String.toList_ofList] at hc
    exact List.mem_takeWhile_imp hc
  have htext : text = text.takeWhile isPlain ++ text.dropWhile isPlain :=
    List.takeWhile_append_dropWhile.symm
  constructor
  · intro h
    unfold placeholder? at h
    split at h
    · next behind hdrop =>
      obtain ⟨rfl, rfl⟩ := Prod.mk.inj (Option.some.inj h)
      refine ⟨⟨hplain, by simp⟩, ?_, rfl⟩
      rw [hdrop] at htext
      simpa [Piece.text] using htext
    · next behind hdrop =>
      obtain ⟨⟨spec, behind'⟩, hsplit, heq⟩ := Option.map_eq_some_iff.1 h
      obtain ⟨rfl, rfl⟩ := Prod.mk.inj heq
      obtain ⟨rfl, hspec⟩ := splitSpec_eq_some_iff.1 hsplit
      refine ⟨⟨hplain, fun s hs => Option.some.inj hs ▸ hspec⟩, ?_, rfl⟩
      rw [hdrop] at htext
      simpa [Piece.text] using htext
    · cases h
  · rintro ⟨hfits, heq, hplaceholder⟩
    cases piece with
    | literal c => cases hplaceholder
    | placeholder argument spec =>
      obtain ⟨hargument, hspec⟩ := hfits
      cases spec with
      | none =>
        obtain rfl : text = argument.toList ++ '\x7d' :: rest := by simpa [Piece.text] using heq
        obtain ⟨htake, hdrop⟩ := takeWhile_dropWhile_of_append (c := '\x7d') rest hargument
          (by decide)
        simp only [placeholder?, hdrop, htake, String.ofList_toList]
      | some spec =>
        obtain rfl : text = argument.toList ++ ':' :: (spec.toList ++ '\x7d' :: rest) := by
          simpa [Piece.text] using heq
        obtain ⟨htake, hdrop⟩ := takeWhile_dropWhile_of_append (c := ':')
          (spec.toList ++ '\x7d' :: rest) hargument (by decide)
        have hsplit := splitSpec_eq_some_iff.2 ⟨rfl, hspec spec rfl⟩
        simp only [placeholder?, hdrop, htake, String.ofList_toList, hsplit, Option.map_some]

/-- Behind the opening brace of a placeholder stands no other one. -/
theorem head?_ne_of_placeholder {argument : String} {spec : Option String}
    (hfits : (Piece.placeholder argument spec).Fits rest)
    (h : '\x7b' :: text = (Piece.placeholder argument spec).text ++ rest) :
    text.head? ≠ some '\x7b' := by
  have hplain : ∀ c, argument.toList.head? = some c → isPlain c = true := fun c hc =>
    hfits.1 c (List.mem_of_mem_head? hc)
  have htext : ∃ behind, text = argument.toList ++ '\x7d' :: behind ∨
      text = argument.toList ++ ':' :: behind := by
    cases spec with
    | none => exact ⟨rest, .inl (by simpa [Piece.text] using h)⟩
    | some spec => exact ⟨_, .inr (by simpa [Piece.text] using h)⟩
  cases hargument : argument.toList with
  | nil => obtain ⟨behind, rfl | rfl⟩ := htext <;> simp [hargument]
  | cons c cs =>
    have hc : c ≠ '\x7b' := (isPlain_iff.1 (hplain c (by rw [hargument]; rfl))).1
    obtain ⟨behind, rfl | rfl⟩ := htext <;> simp [hargument, hc]

/-- **The first piece of a text** is the one that can be written in front of the rest. -/
theorem next?_eq_some_iff : next? text = some (piece, rest) ↔
    piece.Fits rest ∧ text = piece.text ++ rest := by
  constructor
  · intro h
    unfold next? at h
    split at h
    · cases h
    · next c text =>
      split_ifs at h with hbrace hdouble hopening
      · obtain ⟨rfl, rfl⟩ := Prod.mk.inj (Option.some.inj h)
        obtain ⟨behind, rfl⟩ := List.head?_eq_some_iff.1 hdouble
        exact ⟨trivial, by simp [Piece.text, hbrace]⟩
      · subst hopening
        obtain ⟨hfits, heq, -⟩ := placeholder?_eq_some_iff.1 h
        exact ⟨hfits, heq⟩
      · obtain ⟨rfl, rfl⟩ := Prod.mk.inj (Option.some.inj h)
        exact ⟨trivial, by simp [Piece.text, hbrace]⟩
  · rintro ⟨hfits, rfl⟩
    cases piece with
    | literal c => by_cases hbrace : isBrace c = true <;> simp [next?, Piece.text, hbrace]
    | placeholder argument spec =>
      obtain ⟨text, htext⟩ : ∃ text, (Piece.placeholder argument spec).text = '\x7b' :: text := by
        cases spec <;> exact ⟨_, rfl⟩
      have hhead : (text ++ rest).head? ≠ some '\x7b' :=
        head?_ne_of_placeholder hfits (by rw [htext]; rfl)
      have hnext := placeholder?_eq_some_iff.2 ⟨hfits, (by rw [htext]; rfl), rfl⟩
      rw [htext, List.cons_append, next?, if_pos (by decide), if_neg hhead, if_pos rfl]
      exact hnext

theorem length_lt_of_next? (h : next? text = some (piece, rest)) : rest.length < text.length := by
  obtain ⟨-, rfl⟩ := next?_eq_some_iff.1 h
  have hpos : 0 < piece.text.length := by
    cases piece with
    | literal c => by_cases hbrace : isBrace c = true <;> simp [Piece.text, hbrace]
    | placeholder argument spec => cases spec <;> simp [Piece.text]
  rw [List.length_append]
  omega

end

/-- The pieces of a format text, from left to right, if it is one. -/
def read? (text : List Char) : Option (List Piece) :=
  if text = [] then some []
  else
    match h : next? text with
    | none => none
    | some (piece, rest) =>
      have := length_lt_of_next? h
      (read? rest).map (piece :: ·)
termination_by text.length

/-! ## The grammar -/

/-- A text is written in these pieces. -/
inductive Reads : List Char → List Piece → Prop
  | nil : Reads [] []
  | cons {piece : Piece} {rest : List Char} {pieces : List Piece} : piece.Fits rest →
      Reads rest pieces → Reads (piece.text ++ rest) (piece :: pieces)

section

variable {text rest : List Char} {piece : Piece} {pieces : List Piece}

theorem read?_of_next? (h : next? text = some (piece, rest)) :
    read? text = (read? rest).map (piece :: ·) := by
  have hne : text ≠ [] := by
    rintro rfl
    cases h
  rw [read?, if_neg hne]
  split
  · next hnone => rw [h] at hnone; cases hnone
  · next hsome =>
    obtain ⟨rfl, rfl⟩ := Prod.mk.inj (Option.some.inj (h.symm.trans hsome))
    rfl

/-- **Reading follows the grammar**, so that a text is written in the pieces that are read from it
and in no others. -/
theorem read?_eq_some_iff : read? text = some pieces ↔ Reads text pieces := by
  constructor
  · intro h
    fun_induction read? text generalizing pieces with
    | case1 =>
      cases h
      exact .nil
    | case2 => cases h
    | case3 text hne piece rest hnext hlt ih =>
      obtain ⟨pieces, hrest, rfl⟩ := Option.map_eq_some_iff.1 h
      obtain ⟨hfits, rfl⟩ := next?_eq_some_iff.1 hnext
      exact .cons hfits (ih hrest)
  · intro h
    induction h with
    | nil => rw [read?, if_pos rfl]
    | cons hfits _ ih => rw [read?_of_next? (next?_eq_some_iff.2 ⟨hfits, rfl⟩), ih, Option.map_some]

end

/-! ### Specifications -/

section

variable {spec rest rest' : List Char}

/-- Only the first character behind the closing brace may make a difference to a specification. -/
theorem fillLength_congr (h : rest'.head? = rest.head?) :
    fillLength (spec ++ '\x7d' :: rest') = fillLength (spec ++ '\x7d' :: rest) := by
  cases spec with
  | nil =>
    cases rest <;> cases rest' <;> simp_all [fillLength]
  | cons fill spec => cases spec <;> rfl

theorem Piece.IsSpec.congr (hspec : IsSpec spec rest) (h : rest'.head? = rest.head?) :
    IsSpec spec rest' := by
  rw [IsSpec, fillLength_congr h]
  exact hspec

/-- An opening brace in a specification fills, in front of an alignment. -/
theorem Piece.IsSpec.notMem_or (h : IsSpec spec rest) : '\x7b' ∉ spec ∨
    ∃ align body, spec = '\x7b' :: align :: body ∧ isAlignment align = true ∧ '\x7b' ∉ body := by
  have hclean : ∀ {body : List Char}, (∀ c ∈ body, isBrace c = false) → '\x7b' ∉ body :=
    fun hbody hc => absurd (hbody _ hc) (by decide)
  obtain ⟨hle, hbody⟩ := h
  match spec with
  | [] => exact .inl List.not_mem_nil
  | [fill] => exact .inl (hclean hbody)
  | fill :: align :: body =>
    have hlength : fillLength (fill :: align :: body ++ '\x7d' :: rest) =
        if isAlignment align then 2 else 0 := rfl
    by_cases halign : isAlignment align = true
    · rw [hlength, if_pos halign] at hbody
      by_cases hfill : fill = '\x7b'
      · exact .inr ⟨align, body, by rw [hfill], halign, hclean hbody⟩
      · refine .inl ?_
        have hne : align ≠ '\x7b' := by
          rintro rfl
          cases halign
        simpa [Ne.symm hfill, hne.symm] using hclean hbody
    · rw [hlength, if_neg halign] at hbody
      exact .inl (hclean hbody)

end

/-! ## What comes out -/

/-- What a piece comes out as, given how the values of arguments are shown under a specification. -/
def Piece.rendered? (value : String → Option (Option String → List Char)) :
    Piece → Option (List Char)
  | literal c => some [c]
  | placeholder argument spec => (value argument).map (· spec)

/-- What a format text comes out as; nothing if an argument has no value. -/
def render? (value : String → Option (Option String → List Char)) (pieces : List Piece) :
    Option (List Char) :=
  (pieces.mapM (Piece.rendered? value)).map List.flatten

/-- Pieces may be replaced by others that come out the same. -/
theorem render?_map {value value' : String → Option (Option String → List Char)}
    {f : Piece → Piece} {pieces : List Piece} {shown : List Char}
    (hf : ∀ piece ∈ pieces, ∀ text, piece.rendered? value = some text →
      (f piece).rendered? value' = some text) (h : render? value pieces = some shown) :
    render? value' (pieces.map f) = some shown := by
  obtain ⟨texts, htexts, rfl⟩ := Option.map_eq_some_iff.1 h
  suffices hmap : (pieces.map f).mapM (Piece.rendered? value') = some texts by
    rw [render?, hmap, Option.map_some]
  clear h
  induction pieces generalizing texts with
  | nil => exact htexts
  | cons piece pieces ih =>
    obtain ⟨hpiece, hpieces⟩ := List.forall_mem_cons.1 hf
    rw [List.mapM_cons] at htexts
    obtain ⟨text, htext, htexts⟩ := Option.bind_eq_some_iff.1 htexts
    obtain ⟨texts, hrest, heq⟩ := Option.bind_eq_some_iff.1 htexts
    rw [List.map_cons, List.mapM_cons, hpiece text htext, ih hpieces texts hrest]
    exact heq

end StackMachine.Derive.Format
