import StackMachine.Derive.Display
import StackMachine.Proofs.FormatText

/-!
# Searching a message for its fields

Fields are looked for, and renamed, by their text behind an opening brace. So a message refers to
the arguments of its placeholders, and besides to the fields that it shows as literal text in
braces.

* `RefersTo`: what the search takes for a reference, behind an opening brace.
* `renameAll`, **`renamePositions_eq`**: all the replacements together put an `f` behind the braces
  in front of a position.
* `Quotes`: a message shows a placeholder as literal text.
* **`mentions_iff`**: the fields that are found in a format text.
* `renamed`, **`reads_renameAll`**: the pieces of the text with the positions renamed.
* `renamed_eq_map_iff`: only the placeholders are renamed if nothing is quoted.
-/

namespace StackMachine.Derive

open Format

/-! ## References -/

/-- The characters of a name, or of a number, mean nothing in format texts. -/
def IsFieldName (name : String) : Prop :=
  ∀ c ∈ name.toList, isPlain c = true ∧ isAlignment c = false

instance (name : String) : Decidable (IsFieldName name) :=
  inferInstanceAs (Decidable (∀ c ∈ name.toList, _))

/-- The text behind an opening brace is taken for a reference to a field. -/
def RefersTo (name : String) (rest : List Char) : Prop :=
  name.toList ++ ['\x7d'] <+: rest ∨ name.toList ++ [':'] <+: rest

instance (name : String) (rest : List Char) : Decidable (RefersTo name rest) :=
  inferInstanceAs (Decidable (_ ∨ _))

/-- A text has a reference to a field behind some opening brace. -/
def Mentions (name : String) (text : List Char) : Prop :=
  plainPlaceholder name <:+: text ∨ formattedPlaceholder name <:+: text

section

variable {name : String} {text rest pattern : List Char} {c : Char}

theorem occursIn_iff : occursIn pattern text = true ↔ pattern <:+: text := by
  induction text with
  | nil => simp [occursIn]
  | cons c text ih =>
    rw [occursIn, Bool.or_eq_true, List.isPrefixOf_iff_prefix, ih, List.infix_cons_iff]

theorem mentions_eq_true_iff {message : String} :
    mentions message name = true ↔ Mentions name message.toList := by
  rw [mentions, Bool.or_eq_true, occursIn_iff, occursIn_iff, Mentions]

theorem mentions_cons : Mentions name (c :: text) ↔
    c = '\x7b' ∧ RefersTo name text ∨ Mentions name text := by
  simp only [Mentions, RefersTo, plainPlaceholder, formattedPlaceholder, List.cons_append,
    List.infix_cons_iff, List.cons_prefix_cons, eq_comm (a := c)]
  grind

theorem mentions_append (h : '\x7b' ∉ text) :
    Mentions name (text ++ rest) ↔ Mentions name rest := by
  induction text with
  | nil => rfl
  | cons c text ih =>
    obtain ⟨hc, htext⟩ := List.ne_and_not_mem_of_not_mem_cons h
    rw [List.cons_append, mentions_cons, ih htext]
    simp [Ne.symm hc]

theorem Mentions.append_left (h : Mentions name text) (before : List Char) :
    Mentions name (before ++ text) :=
  h.imp (·.trans (List.suffix_append before text).isInfix)
    (·.trans (List.suffix_append before text).isInfix)

/-! ### What stands behind a brace -/

/-- Behind another opening brace, or in front of an alignment, there is no reference. -/
theorem not_refersTo_cons (hname : IsFieldName name) (hc : c = '\x7b' ∨ isAlignment c = true) :
    ¬ RefersTo name (c :: rest) := by
  have hends : c ≠ '\x7d' ∧ c ≠ ':' := by
    rcases hc with rfl | hc
    · decide
    · constructor <;> rintro rfl <;> cases hc
  unfold RefersTo
  cases hlist : name.toList with
  | nil => simp [hends.1.symm, hends.2.symm]
  | cons d ds =>
    obtain ⟨hplain, halign⟩ := hname d (by simp [hlist])
    have hd : d ≠ c := by
      rintro rfl
      rcases hc with rfl | hc
      · cases hplain
      · rw [hc] at halign
        cases halign
    simp [hd]

theorem concat_prefix_iff {xs ys : List Char} {x y : Char} (hxs : ∀ c ∈ xs, isPlain c = true)
    (hys : ∀ c ∈ ys, isPlain c = true) (hx : isPlain x = false) (hy : isPlain y = false) :
    xs ++ [x] <+: ys ++ y :: rest ↔ ys = xs ∧ x = y := by
  induction xs generalizing ys with
  | nil => cases ys with
    | nil => simp
    | cons d ys =>
      have hne : x ≠ d := by
        rintro rfl
        rw [hys x List.mem_cons_self] at hx
        cases hx
      simp [hne]
  | cons d xs ih => cases ys with
    | nil =>
      have hne : d ≠ y := by
        rintro rfl
        rw [hxs d List.mem_cons_self] at hy
        cases hy
      simp [hne]
    | cons d' ys =>
      have htail := ih (List.forall_mem_cons.1 hxs).2 (List.forall_mem_cons.1 hys).2
      simp only [List.cons_append, List.cons_prefix_cons, htail, List.cons.injEq, eq_comm (a := d),
        and_assoc]

/-- Behind the brace of a placeholder there is a reference to its argument. -/
theorem refersTo_argument {argument : String} (hname : IsFieldName name)
    (hargument : ∀ c ∈ argument.toList, isPlain c = true) (hc : c = '\x7d' ∨ c = ':') :
    RefersTo name (argument.toList ++ c :: rest) ↔ argument = name := by
  have hplain : ∀ c ∈ name.toList, isPlain c = true := fun c hc => (hname c hc).1
  rw [← String.toList_inj]
  unfold RefersTo
  rcases hc with rfl | rfl <;>
    rw [concat_prefix_iff hplain hargument (by decide) (by decide),
      concat_prefix_iff hplain hargument (by decide) (by decide)] <;> simp

end

/-! ## Replacing -/

/-- Puts an `f` behind the opening braces in front of a text with a property. -/
def insertAt (p : List Char → Bool) : List Char → List Char
  | [] => []
  | c :: rest =>
    if c = '\x7b' ∧ p rest = true then c :: 'f' :: insertAt p rest else c :: insertAt p rest

section

variable {p p' : List Char → Bool} {text rest pattern replacement : List Char} {c : Char}

theorem insertAt_of_ne (h : c ≠ '\x7b') (rest : List Char) :
    insertAt p (c :: rest) = c :: insertAt p rest :=
  if_neg fun hc => h hc.1

theorem insertAt_append (h : '\x7b' ∉ text) (rest : List Char) :
    insertAt p (text ++ rest) = text ++ insertAt p rest := by
  induction text with
  | nil => rfl
  | cons c text ih =>
    obtain ⟨hc, htext⟩ := List.ne_and_not_mem_of_not_mem_cons h
    rw [List.cons_append, insertAt_of_ne (Ne.symm hc), ih htext, List.cons_append]

theorem insertAt_of_false (h : ∀ rest, p rest = false) (text : List Char) :
    insertAt p text = text := by
  induction text with
  | nil => rfl
  | cons c text ih => rw [insertAt, if_neg (by simp [h]), ih]

theorem insertAt_congr (h : ∀ before rest, text = before ++ '\x7b' :: rest → p rest = p' rest) :
    insertAt p text = insertAt p' text := by
  induction text with
  | nil => rfl
  | cons c text ih =>
    have htext := ih fun before rest heq => h (c :: before) rest (by rw [heq, List.cons_append])
    by_cases hc : c = '\x7b'
    · subst hc
      rw [insertAt, insertAt, h [] text rfl, htext]
    · rw [insertAt_of_ne hc, insertAt_of_ne hc, htext]

theorem head?_insertAt : (insertAt p text).head? = text.head? := by
  cases text with
  | nil => rfl
  | cons c text =>
    rw [insertAt]
    split <;> rfl

/-- What has no brace in it is a prefix before just as behind the change. -/
theorem prefix_insertAt (h : '\x7b' ∉ pattern) :
    pattern <+: insertAt p text ↔ pattern <+: text := by
  induction pattern generalizing text with
  | nil => simp
  | cons d pattern ih =>
    obtain ⟨hd, hpattern⟩ := List.ne_and_not_mem_of_not_mem_cons h
    cases text with
    | nil => simp [insertAt]
    | cons c text =>
      by_cases hc : c = '\x7b'
      · have hne : d ≠ c := by
          rintro rfl
          exact hd hc.symm
        rw [insertAt]
        split <;> simp [hne]
      · rw [insertAt_of_ne hc, List.cons_prefix_cons, List.cons_prefix_cons, ih hpattern]

/-! ### One replacement -/

theorem replaceAfter_append (skipped rest : List Char) :
    replaceAfter pattern replacement skipped.length (skipped ++ rest) =
      replaceAfter pattern replacement 0 rest := by
  induction skipped with
  | nil => rfl
  | cons c skipped ih => rw [List.length_cons, List.cons_append, replaceAfter, ih]

theorem replaceAll_of_not_prefixed (h : ¬ pattern <+: c :: rest) :
    replaceAll pattern replacement (c :: rest) = c :: replaceAll pattern replacement rest := by
  rw [replaceAll, replaceAfter, if_neg (by rwa [List.isPrefixOf_iff_prefix])]
  rfl

theorem replaceAll_of_ne (h : c ≠ '\x7b') (rest : List Char) :
    replaceAll ('\x7b' :: pattern) replacement (c :: rest) =
      c :: replaceAll ('\x7b' :: pattern) replacement rest :=
  replaceAll_of_not_prefixed fun hprefix => h (List.cons_prefix_cons.1 hprefix).1.symm

theorem replaceAll_append (h : '\x7b' ∉ text) (rest : List Char) :
    replaceAll ('\x7b' :: pattern) replacement (text ++ rest) =
      text ++ replaceAll ('\x7b' :: pattern) replacement rest := by
  induction text with
  | nil => rfl
  | cons c text ih =>
    obtain ⟨hc, htext⟩ := List.ne_and_not_mem_of_not_mem_cons h
    rw [List.cons_append, replaceAll_of_ne (Ne.symm hc), ih htext, List.cons_append]

/-- Where the pattern is found it is put back with an `f` in it; the search may then go on directly
behind the `f`, since the rest of the pattern holds no brace. -/
theorem replaceAll_of_prefixed (hpattern : '\x7b' ∉ pattern) (h : pattern <+: rest) :
    replaceAll ('\x7b' :: pattern) ('\x7b' :: 'f' :: pattern) ('\x7b' :: rest) =
      '\x7b' :: 'f' :: replaceAll ('\x7b' :: pattern) ('\x7b' :: 'f' :: pattern) rest := by
  obtain ⟨behind, rfl⟩ := h
  rw [replaceAll_append hpattern, replaceAll, replaceAfter,
    if_pos (List.isPrefixOf_iff_prefix.2 (by simp)), List.length_cons, Nat.add_sub_cancel,
    replaceAfter_append]
  rfl

/-- **A replacement puts in more of the same.** -/
theorem replaceAll_insertAt (hne : pattern ≠ []) (hbrace : '\x7b' ∉ pattern) (hf : 'f' ∉ pattern)
    (p : List Char → Bool) (text : List Char) :
    replaceAll ('\x7b' :: pattern) ('\x7b' :: 'f' :: pattern) (insertAt p text) =
      insertAt (fun rest => pattern.isPrefixOf rest || p rest) text := by
  induction text with
  | nil => rfl
  | cons c text ih =>
    by_cases hc : c = '\x7b'
    · subst hc
      by_cases hp : p text = true
      · -- an `f` was put in here before, and the pattern does not begin with it
        have hfirst : ¬ '\x7b' :: pattern <+: '\x7b' :: 'f' :: insertAt p text := by
          obtain ⟨d, pattern, rfl⟩ := List.exists_cons_of_ne_nil hne
          simp [List.ne_of_not_mem_cons hf |>.symm]
        rw [insertAt, if_pos ⟨rfl, hp⟩, replaceAll_of_not_prefixed hfirst,
          replaceAll_of_ne (by decide), ih, insertAt, if_pos ⟨rfl, by simp [hp]⟩]
      · -- the pattern is found in the changed text where the text had it
        rw [insertAt, if_neg (by simp [hp])]
        by_cases hpattern : pattern <+: text
        · rw [replaceAll_of_prefixed hbrace ((prefix_insertAt hbrace).2 hpattern), ih, insertAt,
            if_pos ⟨rfl, by simp [List.isPrefixOf_iff_prefix.2 hpattern]⟩]
        · have hfirst : ¬ '\x7b' :: pattern <+: '\x7b' :: insertAt p text := by
            rwa [List.cons_prefix_cons, prefix_insertAt hbrace, eq_self_iff_true, true_and]
          rw [replaceAll_of_not_prefixed hfirst, ih, insertAt, if_neg]
          simp [hp, List.isPrefixOf_iff_prefix, hpattern]
    · rw [insertAt_of_ne hc, replaceAll_of_ne hc, ih, insertAt_of_ne hc]

end

/-! ### All replacements -/

section

variable {p : List Char → Bool} {text : List Char} {i count : Nat}

theorem isDigit_of_mem_toString {c : Char} (h : c ∈ (toString i).toList) : c.isDigit = true := by
  have hrepr : (toString i).toList = Nat.toDigits 10 i := Nat.toList_repr
  rw [hrepr] at h
  exact Nat.isDigit_of_mem_toDigits (by decide) (by decide) h

theorem notMem_toString {c : Char} (h : c.isDigit = false) : c ∉ (toString i).toList := fun hc => by
  rw [isDigit_of_mem_toString hc] at h
  cases h

theorem isFieldName_toString (i : Nat) : IsFieldName (toString i) := by
  intro c hc
  have hne : ∀ d : Char, d.isDigit = false → c ≠ d := by
    rintro d hd rfl
    exact notMem_toString hd hc
  rw [isPlain_iff]
  refine ⟨⟨hne _ rfl, hne _ rfl, hne _ rfl⟩, ?_⟩
  simp [isAlignment, hne '<' rfl, hne '^' rfl, hne '>' rfl]

theorem toList_positionName (i : Nat) : (positionName i).toList = 'f' :: (toString i).toList := by
  simp [positionName]

/-- The replacement for a position and the character `d` behind it. -/
theorem replaceAll_toString {d : Char} (hf : d ≠ 'f') (hbrace : d ≠ '\x7b') (i : Nat)
    (p : List Char → Bool) (text : List Char) :
    replaceAll ('\x7b' :: ((toString i).toList ++ [d]))
        ('\x7b' :: 'f' :: ((toString i).toList ++ [d])) (insertAt p text) =
      insertAt (fun rest => ((toString i).toList ++ [d]).isPrefixOf rest || p rest) text := by
  have hmem : ∀ c : Char, c.isDigit = false → d ≠ c → c ∉ (toString i).toList ++ [d] := by
    intro c hc hne
    rw [List.mem_append, List.mem_singleton, not_or]
    exact ⟨notMem_toString hc, hne.symm⟩
  exact replaceAll_insertAt (by simp) (hmem _ rfl hbrace) (hmem _ rfl hf) p text

theorem renamePlaceholder_insertAt (i : Nat) (p : List Char → Bool) (text : List Char) :
    renamePlaceholder (toString i) (positionName i) (String.ofList (insertAt p text)) =
      String.ofList
        (insertAt (fun rest => decide (RefersTo (toString i) rest) || p rest) text) := by
  simp only [renamePlaceholder, plainPlaceholder, formattedPlaceholder, toList_positionName,
    List.cons_append, String.toList_ofList]
  rw [replaceAll_toString (by decide) (by decide), replaceAll_toString (by decide) (by decide)]
  congr 2
  funext rest
  rw [Bool.eq_iff_iff]
  simp only [Bool.or_eq_true, decide_eq_true_eq, List.isPrefixOf_iff_prefix]
  rw [RefersTo, or_assoc, or_left_comm]

theorem foldl_renamePlaceholder (positions : List Nat) (p : List Char → Bool) (text : List Char) :
    positions.foldl (fun text i => renamePlaceholder (toString i) (positionName i) text)
        (String.ofList (insertAt p text)) =
      String.ofList (insertAt
        (fun rest => decide (∃ i ∈ positions, RefersTo (toString i) rest) || p rest) text) := by
  induction positions generalizing p with
  | nil => simp
  | cons i positions ih =>
    rw [List.foldl_cons, renamePlaceholder_insertAt, ih]
    congr 2
    funext rest
    rw [Bool.eq_iff_iff]
    simp only [Bool.or_eq_true, decide_eq_true_eq, List.mem_cons, or_and_right, exists_or,
      exists_eq_left, or_assoc, or_left_comm]

/-- The numbers of the positions below `count`. -/
def positions (count : Nat) : List String :=
  (List.range count).map toString

theorem mem_positions {name : String} :
    name ∈ positions count ↔ ∃ i < count, toString i = name := by
  simp [positions]

/-- A text refers to one of these names. -/
def RefersToAny (names : List String) (rest : List Char) : Prop :=
  ∃ name ∈ names, RefersTo name rest

instance (names : List String) (rest : List Char) : Decidable (RefersToAny names rest) :=
  inferInstanceAs (Decidable (∃ name ∈ names, _))

/-- Puts an `f` behind each opening brace in front of a reference to one of the names. -/
def renameAll (names : List String) : List Char → List Char :=
  insertAt fun rest => decide (RefersToAny names rest)

/-- **All the replacements together** rename the positions in one go. Those that the message does
not refer to make no difference. -/
theorem renamePositions_eq (message : String) (count : Nat) : renamePositions message count =
    String.ofList (renameAll (positions count) message.toList) := by
  have hstart : message = String.ofList (insertAt (fun _ => false) message.toList) := by
    rw [insertAt_of_false fun _ => rfl, String.ofList_toList]
  have hfold := foldl_renamePlaceholder (mentionedPositions message count) (fun _ => false)
    message.toList
  rw [← hstart] at hfold
  rw [renamePositions, hfold]
  congr 1
  refine insertAt_congr fun before rest heq => ?_
  rw [Bool.or_false, decide_eq_decide]
  constructor
  · rintro ⟨i, hi, hrefers⟩
    exact ⟨_, mem_positions.2 ⟨i, List.mem_range.1 (List.mem_filter.1 hi).1, rfl⟩, hrefers⟩
  · rintro ⟨name, hname, hrefers⟩
    obtain ⟨i, hi, rfl⟩ := mem_positions.1 hname
    have hmentions : Mentions (toString i) message.toList :=
      heq ▸ (mentions_cons.2 (.inl ⟨rfl, hrefers⟩)).append_left before
    exact ⟨i, List.mem_filter.2 ⟨List.mem_range.2 hi, mentions_eq_true_iff.2 hmentions⟩, hrefers⟩

end

/-! ## References in a format text -/

/-- A text as literal pieces. -/
def literals (text : List Char) : List Piece :=
  text.map .literal

/-- Behind an opening brace, pieces show a name and then what ends an argument as literal text. -/
def QuotesFirst (name : String) (pieces : List Piece) : Prop :=
  literals (name.toList ++ ['\x7d']) <+: pieces ∨ literals (name.toList ++ [':']) <+: pieces

/-- Pieces show a placeholder for a name as literal text. -/
def Quotes (name : String) (pieces : List Piece) : Prop :=
  literals (plainPlaceholder name) <:+: pieces ∨ literals (formattedPlaceholder name) <:+: pieces

instance (name : String) (pieces : List Piece) : Decidable (QuotesFirst name pieces) :=
  inferInstanceAs (Decidable (_ ∨ _))

instance (name : String) (pieces : List Piece) : Decidable (Quotes name pieces) :=
  inferInstanceAs (Decidable (_ ∨ _))

/-- An argument, renamed if it is one of these names. -/
def renameArgument (names : List String) (argument : String) : String :=
  if argument ∈ names then "f" ++ argument else argument

/-- A piece with the argument of a placeholder renamed. -/
def renamePiece (names : List String) : Piece → Piece
  | .literal c => .literal c
  | .placeholder argument spec => .placeholder (renameArgument names argument) spec

/-- Pieces with the names renamed, in placeholders and where they are quoted. -/
def renamed (names : List String) : List Piece → List Piece
  | [] => []
  | piece :: pieces =>
    if piece = .literal '\x7b' ∧ ∃ name ∈ names, QuotesFirst name pieces then
      piece :: .literal 'f' :: renamed names pieces
    else renamePiece names piece :: renamed names pieces

section

variable {name : String} {names : List String} {text rest spec : List Char} {pieces : List Piece}
  {piece : Piece} {p : List Char → Bool}

theorem quotes_cons : Quotes name (piece :: pieces) ↔
    piece = .literal '\x7b' ∧ QuotesFirst name pieces ∨ Quotes name pieces := by
  simp only [Quotes, QuotesFirst, literals, plainPlaceholder, formattedPlaceholder,
    List.cons_append, List.map_cons, List.infix_cons_iff, List.cons_prefix_cons,
    eq_comm (a := piece)]
  grind

/-! ### Literal text -/

/-- Characters of a name are written as they are, so that a name in front of what ends it is read
off the pieces as off the text. -/
theorem prefix_iff_of_reads {pattern : List Char} {e : Char} (h : Reads text pieces)
    (hpattern : ∀ c ∈ pattern, isPlain c = true) (he : e = '\x7d' ∨ e = ':') :
    pattern ++ [e] <+: text ↔ literals (pattern ++ [e]) <+: pieces := by
  have hend : e ≠ '\x7b' := by rcases he with rfl | rfl <;> decide
  have hopening : ∀ c ∈ pattern, c ≠ '\x7b' := fun c hc => (isPlain_iff.1 (hpattern c hc)).1
  have hclosing : ∀ c ∈ pattern, c ≠ '\x7d' := fun c hc => (isPlain_iff.1 (hpattern c hc)).2.1
  induction pattern generalizing text pieces with
  | nil =>
    cases h with
    | nil => simp [literals]
    | @cons piece rest pieces hfits h => cases piece with
      | literal c => by_cases hbrace : isBrace c = true <;> simp [Piece.text, hbrace, literals]
      | placeholder argument spec => cases spec <;> simp [Piece.text, literals, hend]
  | cons d pattern ih =>
    obtain ⟨hd, hpattern⟩ := List.forall_mem_cons.1 hpattern
    obtain ⟨hd1, hopening⟩ := List.forall_mem_cons.1 hopening
    obtain ⟨hd2, hclosing⟩ := List.forall_mem_cons.1 hclosing
    cases h with
    | nil => simp [literals]
    | @cons piece rest pieces hfits h => cases piece with
      | literal c =>
        by_cases hbrace : isBrace c = true
        · have hne : d ≠ c := by
            rintro rfl
            rcases isBrace_iff.1 hbrace with rfl | rfl <;> contradiction
          simp [Piece.text, hbrace, literals, hne]
        · have hrest := ih h hpattern hopening hclosing
          simp only [literals] at hrest
          simp [Piece.text, hbrace, literals, hrest]
      | placeholder argument spec => cases spec <;> simp [Piece.text, literals, hd1]

theorem refersTo_iff_of_reads (h : Reads text pieces) (hname : IsFieldName name) :
    RefersTo name text ↔ QuotesFirst name pieces := by
  have hplain : ∀ c ∈ name.toList, isPlain c = true := fun c hc => (hname c hc).1
  exact or_congr (prefix_iff_of_reads h hplain (.inl rfl)) (prefix_iff_of_reads h hplain (.inr rfl))

/-! ### Mentions -/

theorem mentions_spec (hname : IsFieldName name) (h : Piece.IsSpec spec rest) :
    Mentions name (spec ++ '\x7d' :: rest) ↔ Mentions name rest := by
  have happend : ∀ text, '\x7b' ∉ text →
      (Mentions name (text ++ '\x7d' :: rest) ↔ Mentions name rest) := by
    intro text htext
    rw [List.append_cons, mentions_append (by simpa using htext)]
  obtain hspec | ⟨align, body, rfl, halign, hbody⟩ := h.notMem_or
  · exact happend spec hspec
  · have hne : align ≠ '\x7b' := by
      rintro rfl
      cases halign
    have hfill : ¬ RefersTo name (align :: body ++ '\x7d' :: rest) :=
      not_refersTo_cons hname (.inr halign)
    rw [List.cons_append, mentions_cons, happend _ (by simp [hne.symm, hbody])]
    exact or_iff_right fun hc => hfill hc.2

/-- What a piece adds to the references in front of `rest`. -/
theorem mentions_piece (hname : IsFieldName name) (h : piece.Fits rest) :
    Mentions name (piece.text ++ rest) ↔
      (piece = .literal '\x7b' ∧ RefersTo name rest ∨ Mentions name rest) ∨
        piece.argument? = some name := by
  cases piece with
  | literal c =>
    by_cases hc : c = '\x7b'
    · have hescape : ¬ RefersTo name ('\x7b' :: rest) := not_refersTo_cons hname (.inl rfl)
      subst hc
      simp [Piece.text, isBrace, Piece.argument?, mentions_cons, hescape]
    · by_cases hbrace : isBrace c = true <;>
        simp [Piece.text, hbrace, Piece.argument?, mentions_cons, hc]
  | placeholder argument spec =>
    obtain ⟨hargument, hspec⟩ := h
    have hmem : '\x7b' ∉ argument.toList := fun hc => (isPlain_iff.1 (hargument _ hc)).1 rfl
    cases spec with
    | none =>
      have htext : (Piece.placeholder argument none).text ++ rest =
          '\x7b' :: (argument.toList ++ '\x7d' :: rest) := by simp [Piece.text]
      rw [htext, mentions_cons, refersTo_argument hname hargument (.inl rfl), List.append_cons,
        mentions_append (by simpa using hmem)]
      simp [Piece.argument?, or_comm]
    | some spec =>
      have htext : (Piece.placeholder argument (some spec)).text ++ rest =
          '\x7b' :: (argument.toList ++ ':' :: (spec.toList ++ '\x7d' :: rest)) := by
        simp [Piece.text]
      rw [htext, mentions_cons, refersTo_argument hname hargument (.inr rfl), List.append_cons,
        mentions_append (by simpa using hmem), mentions_spec hname (hspec spec rfl)]
      simp [Piece.argument?, or_comm]

/-- **The fields that are found in a format text** are the arguments of its placeholders and what it
quotes. -/
theorem mentions_iff (h : Reads text pieces) (hname : IsFieldName name) :
    Mentions name text ↔ Quotes name pieces ∨ name ∈ arguments pieces := by
  induction h with
  | nil => simp [Mentions, Quotes, literals, plainPlaceholder, formattedPlaceholder, arguments]
  | @cons piece rest pieces hfits h ih =>
    rw [mentions_piece hname hfits, ih, refersTo_iff_of_reads h hname, quotes_cons,
      mem_arguments_cons, ← or_assoc, or_assoc, or_comm (a := name ∈ arguments pieces)]

/-! ### Renaming -/

theorem not_refersToAny_cons {c : Char} (hnames : ∀ name ∈ names, IsFieldName name)
    (hc : c = '\x7b' ∨ isAlignment c = true) : ¬ RefersToAny names (c :: rest) :=
  fun ⟨name, hname, h⟩ => not_refersTo_cons (hnames name hname) hc h

theorem refersToAny_argument {argument : String} {c : Char}
    (hnames : ∀ name ∈ names, IsFieldName name)
    (hargument : ∀ c ∈ argument.toList, isPlain c = true) (hc : c = '\x7d' ∨ c = ':') :
    RefersToAny names (argument.toList ++ c :: rest) ↔ argument ∈ names := by
  constructor
  · rintro ⟨name, hname, h⟩
    rwa [(refersTo_argument (hnames name hname) hargument hc).1 h]
  · exact fun h => ⟨argument, h, (refersTo_argument (hnames argument h) hargument hc).2 rfl⟩

theorem renameAll_opening (names : List String) (rest : List Char) :
    renameAll names ('\x7b' :: rest) = if RefersToAny names rest then
      '\x7b' :: 'f' :: renameAll names rest else '\x7b' :: renameAll names rest := by
  by_cases h : RefersToAny names rest <;> simp [renameAll, insertAt, h]

theorem renameAll_append (names : List String) (h : '\x7b' ∉ text) (rest : List Char) :
    renameAll names (text ++ rest) = text ++ renameAll names rest :=
  insertAt_append h rest

theorem renameAll_spec (hnames : ∀ name ∈ names, IsFieldName name) (h : Piece.IsSpec spec rest) :
    renameAll names (spec ++ '\x7d' :: rest) = spec ++ '\x7d' :: renameAll names rest := by
  have happend : ∀ text, '\x7b' ∉ text →
      renameAll names (text ++ '\x7d' :: rest) = text ++ '\x7d' :: renameAll names rest := by
    intro text htext
    rw [List.append_cons, renameAll_append names (by simpa using htext), List.append_assoc]
    rfl
  obtain hspec | ⟨align, body, rfl, halign, hbody⟩ := h.notMem_or
  · exact happend spec hspec
  · have hne : align ≠ '\x7b' := by
      rintro rfl
      cases halign
    rw [List.cons_append, renameAll_opening, List.cons_append,
      if_neg (not_refersToAny_cons hnames (.inr halign)), ← List.cons_append,
      happend _ (by simp [hne.symm, hbody])]
    rfl

/-- The argument of a placeholder is renamed. -/
theorem renameAll_argument {argument : String} {c : Char} (rest : List Char)
    (hnames : ∀ name ∈ names, IsFieldName name)
    (hargument : ∀ c ∈ argument.toList, isPlain c = true) (hc : c = '\x7d' ∨ c = ':') :
    renameAll names ('\x7b' :: (argument.toList ++ c :: rest)) =
      '\x7b' :: ((renameArgument names argument).toList ++ c :: renameAll names rest) := by
  have hmem : '\x7b' ∉ argument.toList ++ [c] := by
    rw [List.mem_append, List.mem_singleton, not_or]
    refine ⟨fun h => (isPlain_iff.1 (hargument _ h)).1 rfl, ?_⟩
    rcases hc with rfl | rfl <;> decide
  have hrest : renameAll names (argument.toList ++ c :: rest) =
      argument.toList ++ c :: renameAll names rest := by
    rw [List.append_cons, renameAll_append names hmem, ← List.append_cons]
  rw [renameAll_opening, hrest, renameArgument]
  simp only [refersToAny_argument hnames hargument hc]
  split <;> simp

theorem isPlain_of_mem_renameArgument {argument : String} {c : Char}
    (hargument : ∀ c ∈ argument.toList, isPlain c = true)
    (hc : c ∈ (renameArgument names argument).toList) : isPlain c = true := by
  unfold renameArgument at hc
  split at hc
  · rw [String.toList_append, List.mem_append] at hc
    obtain hc | hc := hc
    · obtain rfl : c = 'f' := by simpa using hc
      rfl
    · exact hargument c hc
  · exact hargument c hc

theorem fits_renamePiece (h : piece.Fits rest) :
    (renamePiece names piece).Fits (renameAll names rest) := by
  cases piece with
  | literal c => trivial
  | placeholder argument spec =>
    exact ⟨fun c => isPlain_of_mem_renameArgument h.1,
      fun s hs => (h.2 s hs).congr head?_insertAt⟩

/-- What becomes of a piece in front of `rest`. -/
theorem renameAll_piece (hnames : ∀ name ∈ names, IsFieldName name) (h : piece.Fits rest) :
    renameAll names (piece.text ++ rest) =
      if piece = .literal '\x7b' ∧ RefersToAny names rest then
        piece.text ++ 'f' :: renameAll names rest
      else (renamePiece names piece).text ++ renameAll names rest := by
  cases piece with
  | literal c =>
    by_cases hc : c = '\x7b'
    · subst hc
      have hescape : ¬ RefersToAny names ('\x7b' :: rest) := not_refersToAny_cons hnames (.inl rfl)
      by_cases hrefers : RefersToAny names rest <;>
        simp [Piece.text, isBrace, renamePiece, renameAll_opening, hescape, hrefers]
    · have hmem : '\x7b' ∉ (Piece.literal c).text := by
        by_cases hbrace : isBrace c = true <;> simp [Piece.text, hbrace, Ne.symm hc]
      rw [renameAll_append names hmem, if_neg (by simp [hc]), renamePiece]
  | placeholder argument spec =>
    obtain ⟨hargument, hspec⟩ := h
    rw [if_neg (by simp), renamePiece]
    cases spec with
    | none =>
      have hrename := renameAll_argument rest hnames hargument (.inl rfl)
      simpa [Piece.text] using hrename
    | some spec =>
      have hrename := renameAll_argument (spec.toList ++ '\x7d' :: rest) hnames hargument (.inr rfl)
      rw [renameAll_spec hnames (hspec spec rfl)] at hrename
      simpa [Piece.text] using hrename

/-- **The text with the names renamed** reads as the pieces with the names renamed. -/
theorem reads_renameAll (hnames : ∀ name ∈ names, IsFieldName name) (h : Reads text pieces) :
    Reads (renameAll names text) (renamed names pieces) := by
  induction h with
  | nil => exact .nil
  | @cons piece rest pieces hfits h ih =>
    have hrefers : RefersToAny names rest ↔ ∃ name ∈ names, QuotesFirst name pieces :=
      exists_congr fun name => and_congr_right fun hname =>
        refersTo_iff_of_reads h (hnames name hname)
    rw [renameAll_piece hnames hfits, renamed]
    simp only [hrefers]
    split
    · next hquotes =>
      obtain ⟨rfl, -⟩ := hquotes
      exact .cons trivial (.cons (show Piece.Fits _ (.literal 'f') from trivial) ih)
    · exact .cons (fits_renamePiece hfits) ih

/-! ### Where nothing is quoted -/

theorem length_le_renamed (names : List String) (pieces : List Piece) :
    pieces.length ≤ (renamed names pieces).length := by
  induction pieces with
  | nil => exact le_rfl
  | cons piece pieces ih =>
    rw [renamed]
    split <;> simp only [List.length_cons] <;> omega

/-- **Only placeholders are renamed exactly if no name is quoted.** -/
theorem renamed_eq_map_iff : renamed names pieces = pieces.map (renamePiece names) ↔
    ∀ name ∈ names, ¬ Quotes name pieces := by
  induction pieces with
  | nil => simp [renamed, Quotes, literals, plainPlaceholder, formattedPlaceholder]
  | cons piece pieces ih =>
    rw [renamed, List.map_cons]
    split
    · next hquotes =>
      obtain ⟨rfl, name, hname, hfirst⟩ := hquotes
      constructor
      · intro heq
        have hlength := congrArg List.length heq
        have hle := length_le_renamed names pieces
        simp only [List.length_cons, List.length_map] at hlength
        omega
      · exact fun h => absurd (quotes_cons.2 (.inl ⟨rfl, hfirst⟩)) (h name hname)
    · next hquotes =>
      rw [List.cons.injEq, eq_self_iff_true, true_and, ih]
      refine forall₂_congr fun name hname => not_congr ?_
      rw [quotes_cons, or_iff_right]
      exact fun h => hquotes ⟨h.1, name, hname, h.2⟩

end

end StackMachine.Derive
