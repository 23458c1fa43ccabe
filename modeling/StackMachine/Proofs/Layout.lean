import Mathlib.Data.List.Basic
import Mathlib.Logic.Relation
import StackMachine.Source

/-!
# Layout

A line means what its words in front of the comment spell. The layout of a text can therefore be
changed without changing what is assembled from it.

* `words_append_of_apart`: words are counted piecewise where no word goes across the border.
* `spelling`, `spellings`: what a line and the lines of a text spell; `tokenize_eq_mapIdx`.
* `LineEdit`: rewritings of a line; **`LineEdit.spelling_eq`**.
* `IsLine`: a line in its text; `IsLine.spellings_eq`.
* `Relaid`: one line is rewritten, or every end of a line; `Relaid.spellings_eq`.
* **`assemble_of_relaid`**: layout does not matter.
-/

namespace StackMachine

variable {u v w word word' name line line' before behind text text' : List Char} {c : Char}

/-! ## Words of two pieces -/

/-- Only blanks. -/
def AllBlank (w : List Char) : Prop :=
  ∀ c ∈ w, isBlank c = true

instance : Decidable (AllBlank w) :=
  decidable_of_iff (w.all isBlank = true) List.all_eq_true

/-- No word goes across the border of two pieces: one of them is empty or has a blank there. -/
def Apart (u v : List Char) : Prop :=
  (∀ c ∈ u.getLast?, isBlank c = true) ∨ ∀ c ∈ v.head?, isBlank c = true

instance : Decidable (Apart u v) :=
  decidable_of_iff (u.getLast?.all isBlank = true ∨ v.head?.all isBlank = true)
    (or_congr (Option.all_eq_true ..) (Option.all_eq_true ..))

theorem AllBlank.apart_left (h : AllBlank w) (v : List Char) : Apart w v :=
  Or.inl fun c hc => h c (List.mem_of_getLast? hc)

theorem AllBlank.apart_right (h : AllBlank w) (u : List Char) : Apart u w :=
  Or.inr fun c hc => h c (List.mem_of_head? hc)

theorem words_append_of_apart (h : Apart u v) : words (u ++ v) = words u ++ words v := by
  obtain h | h := h
  · obtain rfl | ⟨u, c, rfl⟩ := List.eq_nil_or_concat' u
    · rfl
    · have hc : isBlank c = true := h c (List.getLast?_concat ..)
      have hu : words (u ++ [c]) = words u := by
        rw [words_append_cons hc, words_nil, List.append_nil]
      rw [hu, List.append_assoc, List.singleton_append, words_append_cons hc]
  · cases v with
    | nil => rw [words_nil, List.append_nil, List.append_nil]
    | cons c v =>
      have hc : isBlank c = true := h c rfl
      rw [words_append_cons hc, words_cons_of_isBlank hc]

theorem words_of_allBlank (h : AllBlank w) : words w = [] := by
  induction w with
  | nil => exact words_nil
  | cons c w ih =>
    rw [words_cons_of_isBlank (h c List.mem_cons_self)]
    exact ih fun c hc => h c (List.mem_cons_of_mem _ hc)

theorem words_append_of_allBlank (h : AllBlank w) : words (u ++ w) = words u := by
  rw [words_append_of_apart (h.apart_right u), words_of_allBlank h, List.append_nil]

/-- Blanks between two pieces that stand apart are not seen. -/
theorem words_append_append (hw : AllBlank w) (h : Apart u v) :
    words (u ++ w ++ v) = words (u ++ v) := by
  rw [words_append_of_apart h]
  obtain h | h := h
  · have hu : Apart u (w ++ v) := Or.inl h
    rw [List.append_assoc, words_append_of_apart hu, words_append_of_apart (hw.apart_left v),
      words_of_allBlank hw, List.nil_append]
  · have hv : Apart (u ++ w) v := Or.inr h
    rw [words_append_of_apart hv, words_append_of_allBlank hw]

/-! ## Comments -/

theorem startsComment_of_isBlank (h : isBlank c = true) : startsComment c = false := by
  by_contra hc
  have hmarker : c = '#' ∨ c = ';' := by
    simpa [startsComment, or_iff_not_imp_left] using hc
  obtain rfl | rfl := hmarker
  · revert h
    decide
  · revert h
    decide

/-- No comment starts in a text. -/
def Plain (u : List Char) : Prop :=
  ∀ c ∈ u, startsComment c = false

theorem AllBlank.plain (h : AllBlank w) : Plain w :=
  fun c hc => startsComment_of_isBlank (h c hc)

theorem dropComment_append_of_plain (h : Plain u) (v : List Char) :
    dropComment (u ++ v) = u ++ dropComment v :=
  List.takeWhile_append_of_pos fun c hc => by simp [h c hc]

theorem dropComment_of_plain (h : Plain u) : dropComment u = u := by
  simpa [dropComment] using dropComment_append_of_plain h []

/-- Behind the start of a comment nothing counts. -/
theorem dropComment_append_of_not_plain (h : ¬ Plain u) (v : List Char) :
    dropComment (u ++ v) = dropComment u := by
  obtain ⟨c, hc, hmarker⟩ : ∃ c ∈ u, startsComment c = true := by simpa [Plain] using h
  obtain ⟨s, t, rfl⟩ := List.append_of_mem hc
  simp [dropComment, List.takeWhile_append, hmarker]

theorem dropComment_cons (h : startsComment c = true) (u : List Char) :
    dropComment (c :: u) = [] := by
  simp [dropComment, h]

theorem head?_dropComment (h : ∀ c ∈ v.head?, isBlank c = true ∨ startsComment c = true) :
    ∀ c ∈ (dropComment v).head?, isBlank c = true := by
  intro c hc
  rw [dropComment, List.head?_takeWhile] at hc
  obtain ⟨hv, hplain⟩ := Option.mem_filter_iff.1 hc
  obtain hb | hm := h c hv
  · exact hb
  · simp [hm] at hplain

theorem Apart.dropComment (h : Apart u v) : Apart u (dropComment v) :=
  h.imp_right fun h => head?_dropComment fun c hc => Or.inl (h c hc)

/-! ## What a line spells -/

/-- The words of a line in front of its comment. -/
def codeWords (line : List Char) : List (List Char) :=
  words (dropComment line)

/-- What a line spells. -/
def spelling (line : List Char) : Except Cause SourceLine :=
  SourceLine.ofWords (codeWords line)

theorem codeWords_append_of_allBlank (hw : AllBlank w) : codeWords (u ++ w) = codeWords u := by
  unfold codeWords
  by_cases hu : Plain u
  · rw [dropComment_append_of_plain hu, dropComment_of_plain hw.plain, dropComment_of_plain hu,
      words_append_of_allBlank hw]
  · rw [dropComment_append_of_not_plain hu]

theorem codeWords_append_append (hw : AllBlank w) (h : Apart u v) :
    codeWords (u ++ w ++ v) = codeWords (u ++ v) := by
  unfold codeWords
  -- behind the start of a comment the blanks are not seen at all
  by_cases hu : Plain u
  · rw [List.append_assoc, dropComment_append_of_plain hu, dropComment_append_of_plain hw.plain,
      dropComment_append_of_plain hu, ← List.append_assoc, words_append_append hw h.dropComment]
  · rw [List.append_assoc, dropComment_append_of_not_plain hu, dropComment_append_of_not_plain hu]

/-- A comment is not seen. -/
theorem codeWords_append_comment (hc : startsComment c = true) (text : List Char) :
    codeWords (u ++ c :: text) = codeWords u := by
  unfold codeWords
  by_cases hu : Plain u
  · rw [dropComment_append_of_plain hu, dropComment_cons hc, List.append_nil,
      dropComment_of_plain hu]
  · rw [dropComment_append_of_not_plain hu]

/-- The carriage return at the end of a line is a blank. -/
theorem spelling_dropReturn (line : List Char) : spelling (dropReturn line) = spelling line := by
  unfold dropReturn
  split
  · next h =>
    obtain ⟨u, rfl⟩ := List.getLast?_eq_some_iff.1 h
    have hr : AllBlank ['\r'] := fun c hc => List.mem_singleton.1 hc ▸ isBlank_return
    rw [List.dropLast_concat, spelling, spelling, codeWords_append_of_allBlank hr]
  · rfl

/-! ## The first word of a line -/

/-- Characters without blanks and comments. -/
def IsWord (word : List Char) : Prop :=
  word ≠ [] ∧ ∀ c ∈ word, isBlank c = false ∧ startsComment c = false

instance : Decidable (IsWord word) :=
  decidable_of_iff (word ≠ [] ∧ word.all (fun c => !isBlank c && !startsComment c) = true)
    (and_congr_right fun _ => by simp)

/-- What may stand behind a word: nothing, a blank or a comment. -/
def EndsWord (v : List Char) : Prop :=
  ∀ c ∈ v.head?, isBlank c = true ∨ startsComment c = true

instance : Decidable (EndsWord v) :=
  decidable_of_iff (v.head?.all (fun c => isBlank c || startsComment c) = true)
    (by simp [EndsWord, Option.all_eq_true])

theorem IsWord.plain (h : IsWord word) : Plain word :=
  fun c hc => (h.2 c hc).2

theorem IsWord.words_eq (h : IsWord word) : words word = [word] :=
  words_eq_singleton (fun c hc => (h.2 c hc).1) h.1

theorem IsWord.newline_notMem (h : IsWord word) : '\n' ∉ word := fun hc =>
  absurd isBlank_newline (by simp [(h.2 _ hc).1])

/-- A word behind blanks is the first one. -/
theorem codeWords_of_isWord (hu : AllBlank u) (h : IsWord word) (hv : EndsWord v) :
    codeWords (u ++ word ++ v) = word :: codeWords v := by
  have hplain : Plain (u ++ word) := fun c hc =>
    (List.mem_append.1 hc).elim (hu.plain c) (h.plain c)
  have hapart : Apart (u ++ word) (dropComment v) := Or.inr (head?_dropComment hv)
  rw [codeWords, dropComment_append_of_plain hplain, words_append_of_apart hapart,
    words_append_of_apart (hu.apart_left word), words_of_allBlank hu, h.words_eq]
  rfl

/-! ## Letter case -/

theorem toUpper_eq_or (c : Char) :
    c.toUpper = c ∨ 97 ≤ c.toNat ∧ c.toNat ≤ 122 ∧ c.toUpper.toNat + 32 = c.toNat := by
  unfold Char.toUpper
  split
  · next h =>
    right
    simp only [Char.toNat, UInt32.le_iff_toNat_le] at h ⊢
    simp at h ⊢
    omega
  · exact Or.inl rfl

/-- A property that letters do not have does not depend on letter case. -/
theorem toUpper_stable {p : Char → Bool}
    (hp : ∀ c : Char, 65 ≤ c.toNat → c.toNat ≤ 122 → p c = false) (c : Char) :
    p c.toUpper = p c := by
  obtain h | ⟨h₁, h₂, h₃⟩ := toUpper_eq_or c
  · rw [h]
  · rw [hp c (by omega) h₂, hp c.toUpper (by omega) (by omega)]

theorem isBlank_eq_false (h₁ : 32 < c.toNat) (h₂ : c.toNat < 133) : isBlank c = false := by
  simp [isBlank, blankRanges]
  omega

theorem startsComment_eq_false (h₁ : c.toNat ≠ 35) (h₂ : c.toNat ≠ 59) :
    startsComment c = false := by
  have hhash : c ≠ '#' := by rintro rfl; exact h₁ rfl
  have hsemicolon : c ≠ ';' := by rintro rfl; exact h₂ rfl
  simp [startsComment, hhash, hsemicolon]

theorem isBlank_toUpper (c : Char) : isBlank c.toUpper = isBlank c := by
  refine toUpper_stable (fun c h₁ h₂ => ?_) c
  exact isBlank_eq_false (by omega) (by omega)

theorem startsComment_toUpper (c : Char) : startsComment c.toUpper = startsComment c := by
  refine toUpper_stable (fun c h₁ h₂ => ?_) c
  exact startsComment_eq_false (by omega) (by omega)

theorem toUpper_eq_colon_iff : c.toUpper = ':' ↔ c = ':' := by
  have h : (c.toUpper == ':') = (c == ':') := by
    refine toUpper_stable (p := (· == ':')) (fun c h₁ h₂ => ?_) c
    have hcolon : c ≠ ':' := by rintro rfl; revert h₁; decide
    simp [hcolon]
  simpa using congrArg (· = true) h

/-- Two words that differ in letter case only. -/
def SameLetters (word word' : List Char) : Prop :=
  word'.map Char.toUpper = word.map Char.toUpper

theorem SameLetters.isWord (h : SameLetters word word') (hw : IsWord word) : IsWord word' := by
  refine ⟨fun hnil => ?_, fun c hc => ?_⟩
  · subst hnil
    exact hw.1 (List.map_eq_nil_iff.1 h.symm)
  · have hmem : c.toUpper ∈ word.map Char.toUpper := h ▸ List.mem_map_of_mem hc
    obtain ⟨d, hd, heq⟩ := List.mem_map.1 hmem
    obtain ⟨hblank, hmarker⟩ := hw.2 d hd
    refine ⟨?_, ?_⟩
    · rw [← isBlank_toUpper, ← heq, isBlank_toUpper, hblank]
    · rw [← startsComment_toUpper, ← heq, startsComment_toUpper, hmarker]

theorem SameLetters.getLast?_ne (h : SameLetters word word') (hw : word.getLast? ≠ some ':') :
    word'.getLast? ≠ some ':' := by
  intro hcolon
  have hlast : (word.map Char.toUpper).getLast? = some ':' := by
    rw [← h, List.getLast?_map, hcolon]
    rfl
  rw [List.getLast?_map] at hlast
  obtain ⟨c, hc, hup⟩ := Option.map_eq_some_iff.1 hlast
  exact hw (hc.trans (congrArg some (toUpper_eq_colon_iff.1 hup)))

/-! ## Rewriting a line -/

/-- Rewritings of a line. -/
inductive LineEdit : List Char → List Char → Prop
  /-- Blanks are put at an end of the line or next to a blank. -/
  | blanks {u v w : List Char} : AllBlank w → '\n' ∉ w → Apart u v →
      LineEdit (u ++ v) (u ++ w ++ v)
  /-- A comment is put behind the line; blanks at its end, such as a carriage return, may stay
  there. -/
  | comment {u w text : List Char} {c : Char} : startsComment c = true → '\n' ∉ text →
      AllBlank w → LineEdit (u ++ w) (u ++ c :: text ++ w)
  /-- The first word is written with other small and capital letters; it defines no label. -/
  | letterCase {u v word word' : List Char} : AllBlank u → IsWord word →
      word.getLast? ≠ some ':' → EndsWord v → SameLetters word word' →
      LineEdit (u ++ word ++ v) (u ++ word' ++ v)
  /-- The first word defines a label, and `LABEL` is written instead. -/
  | label {u v name : List Char} : AllBlank u → IsWord (name ++ [':']) → name ≠ [] → EndsWord v →
      LineEdit (u ++ (name ++ [':']) ++ v) (u ++ ("LABEL ".toList ++ name) ++ v)

theorem labelDefinition?_of_getLast?_ne (h : word.getLast? ≠ some ':') :
    SourceLine.labelDefinition? word = none :=
  if_neg h

theorem labelDefinition?_concat (name : List Char) :
    SourceLine.labelDefinition? (name ++ [':']) = some name := by
  rw [SourceLine.labelDefinition?, if_pos (List.getLast?_concat ..), List.dropLast_concat]

theorem ofWords_of_sameLetters (h : SameLetters word word') (hw : word.getLast? ≠ some ':')
    (rest : List (List Char)) :
    SourceLine.ofWords (word' :: rest) = SourceLine.ofWords (word :: rest) := by
  have hdef := labelDefinition?_of_getLast?_ne hw
  have hdef' := labelDefinition?_of_getLast?_ne (h.getLast?_ne hw)
  have hup : word'.map Char.toUpper = word.map Char.toUpper := h
  obtain _ | ⟨operand, _ | ⟨extra, rest⟩⟩ := rest <;> simp [SourceLine.ofWords, hdef, hdef', hup]

/-- `LABEL` spells what the colon spells, also where there are too many words. -/
theorem ofWords_label (name : List Char) (rest : List (List Char)) :
    SourceLine.ofWords ("LABEL".toList :: name :: rest) =
      SourceLine.ofWords ((name ++ [':']) :: rest) := by
  have hdef := labelDefinition?_concat name
  have hdef' : SourceLine.labelDefinition? "LABEL".toList = none := rfl
  have hup : "LABEL".toList.map Char.toUpper = "LABEL".toList := rfl
  cases rest with
  | nil =>
    simp only [SourceLine.ofWords, hdef, hdef', hup]
    rfl
  | cons extra rest => simp only [SourceLine.ofWords, hdef, hdef']

theorem IsWord.of_concat (h : IsWord (name ++ [c])) (hne : name ≠ []) : IsWord name :=
  ⟨hne, fun c hc => h.2 c (List.mem_append_left _ hc)⟩

theorem codeWords_label (hu : AllBlank u) (h : IsWord name) (hv : EndsWord v) :
    codeWords (u ++ ("LABEL ".toList ++ name) ++ v) = "LABEL".toList :: name :: codeWords v := by
  have hlabel : IsWord "LABEL".toList := by decide
  have hspace : AllBlank [' '] := by decide
  have hrest : codeWords ([' '] ++ name ++ v) = name :: codeWords v :=
    codeWords_of_isWord hspace h hv
  have hends : EndsWord ([' '] ++ name ++ v) := fun c hc => by
    cases hc
    exact Or.inl isBlank_space
  rw [← hrest, ← codeWords_of_isWord hu hlabel hends]
  simp

namespace LineEdit

/-- **A rewritten line spells the same.** -/
theorem spelling_eq (h : LineEdit line line') : spelling line' = spelling line := by
  unfold spelling
  cases h with
  | blanks hw _ h => rw [codeWords_append_append hw h]
  | comment hc _ hw =>
    rw [codeWords_append_of_allBlank hw, codeWords_append_of_allBlank hw,
      codeWords_append_comment hc]
  | letterCase hu hword hcolon hv h =>
    rw [codeWords_of_isWord hu hword hv, codeWords_of_isWord hu (h.isWord hword) hv,
      ofWords_of_sameLetters h hcolon]
  | label hu hword hne hv =>
    rw [codeWords_of_isWord hu hword hv, codeWords_label hu (hword.of_concat hne) hv, ofWords_label]

theorem newline_notMem (h : LineEdit line line') (hline : '\n' ∉ line) : '\n' ∉ line' := by
  cases h with
  | blanks _ hw _ => simp_all
  | @comment u w text c hc htext _ =>
    have hmarker : '\n' ≠ c := by rintro rfl; revert hc; decide
    simp_all
  | letterCase _ hword _ _ h =>
    have hword' := (h.isWord hword).newline_notMem
    simp_all
  | label => simp_all

theorem ne_nil (h : LineEdit line line') (hne : line ≠ []) : line' ≠ [] := by
  cases h with
  | blanks => simp_all
  | comment => simp
  | letterCase _ hword _ _ h => simp [(h.isWord hword).1]
  | label => simp

end LineEdit

/-! ## Lines of a text -/

/-- Induction on the lines of a text. -/
theorem byLines {P : List Char → Prop} (last : ∀ line, '\n' ∉ line → P line)
    (newline : ∀ line rest, '\n' ∉ line → P rest → P (line ++ '\n' :: rest)) (text : List Char) :
    P text := by
  by_cases h : '\n' ∈ text
  · obtain ⟨line, rest, htext, hline⟩ := List.eq_append_cons_of_mem h
    have hlt : rest.length < text.length := by simp [htext]; omega
    rw [htext]
    exact newline line rest hline (byLines last newline rest)
  · exact last text h
termination_by text.length

theorem parse_ofList (line : List Char) :
    SourceLine.parse (String.ofList line) = spelling line := by
  rw [SourceLine.parse, String.toList_ofList]
  rfl

/-- What the lines of a text spell. -/
def spellings (text : List Char) : List (Except Cause SourceLine) :=
  (lines text).map spelling

theorem tokenize_eq_mapIdx (source : String) :
    tokenize source = (spellings source.toList).mapIdx tagLine := by
  symm
  rw [tokenize, spellings, List.mapIdx_eq_iff]
  intro k
  rw [List.getElem?_mapIdx, List.getElem?_map, Option.map_map]
  refine congrArg (Option.map · _) (funext fun line => ?_)
  rw [Function.comp_apply, parse_ofList]

theorem spellings_append_newline (h : '\n' ∉ line) (rest : List Char) :
    spellings (line ++ '\n' :: rest) = spelling line :: spellings rest := by
  rw [spellings, lines_append_newline h, List.map_cons, spelling_dropReturn, spellings]

/-- A text that ends in front of a line. -/
def EndsLine (before : List Char) : Prop :=
  before = [] ∨ before.getLast? = some '\n'

theorem lines_append (h : EndsLine before) (text : List Char) :
    lines (before ++ text) = lines before ++ lines text := by
  induction before using byLines with
  | last line hline =>
    -- text without newline ends in front of a line only if it is empty
    obtain rfl | hlast := h
    · rw [lines_nil, List.nil_append, List.nil_append]
    · exact absurd (List.mem_of_getLast? hlast) hline
  | newline line rest hline ih =>
    have hrest : EndsLine rest := by
      obtain rfl | hne := eq_or_ne rest []
      · exact Or.inl rfl
      · right
        simpa [EndsLine, List.getLast?_append, List.getLast?_cons_of_ne_nil hne, hne] using h
    rw [List.append_assoc, List.cons_append, lines_append_newline hline,
      lines_append_newline hline, ih hrest, List.cons_append]

/-- A line in its text. Behind the last newline there is a line only if there is text. -/
structure IsLine (before line behind : List Char) : Prop where
  endsLine : EndsLine before
  newline_notMem : '\n' ∉ line
  behind : behind.head? = some '\n' ∨ behind = [] ∧ line ≠ []

theorem IsLine.exists_lines_eq (h : IsLine before line behind) :
    ∃ shown, (shown = line ∨ shown = dropReturn line) ∧
      lines (before ++ line ++ behind) = lines before ++ shown :: lines behind.tail := by
  rw [List.append_assoc, lines_append h.endsLine]
  obtain hbehind | ⟨rfl, hne⟩ := h.behind
  · obtain ⟨rest, rfl⟩ := List.head?_eq_some_iff.1 hbehind
    exact ⟨dropReturn line, Or.inr rfl, by rw [lines_append_newline h.newline_notMem]; rfl⟩
  · refine ⟨line, Or.inl rfl, ?_⟩
    rw [List.append_nil, lines_eq_singleton h.newline_notMem hne, List.tail_nil, lines_nil]

theorem IsLine.spellings_eq (h : IsLine before line behind) :
    spellings (before ++ line ++ behind) =
      spellings before ++ spelling line :: spellings behind.tail := by
  obtain ⟨shown, hshown, heq⟩ := h.exists_lines_eq
  have hspelling : spelling shown = spelling line := by
    obtain rfl | rfl := hshown
    · rfl
    · exact spelling_dropReturn line
  rw [spellings, heq, List.map_append, List.map_cons, hspelling, spellings, spellings]

/-! ## Rewriting a text -/

/-- A text with a carriage return in front of every newline. -/
def withReturns (text : List Char) : List Char :=
  text.flatMap fun c => if c = '\n' then ['\r', '\n'] else [c]

theorem withReturns_of_notMem (h : '\n' ∉ line) : withReturns line = line := by
  induction line with
  | nil => rfl
  | cons c line ih =>
    have hc : c ≠ '\n' := fun heq => h (heq ▸ List.mem_cons_self)
    have hline := ih fun hmem => h (List.mem_cons_of_mem _ hmem)
    rw [withReturns, List.flatMap_cons, if_neg hc, ← withReturns, hline]
    rfl

theorem withReturns_append_newline (h : '\n' ∉ line) (rest : List Char) :
    withReturns (line ++ '\n' :: rest) = line ++ ['\r'] ++ '\n' :: withReturns rest := by
  have hline := withReturns_of_notMem h
  rw [withReturns, List.flatMap_append, List.flatMap_cons, if_pos rfl, ← withReturns,
    ← withReturns, hline]
  simp

theorem spellings_withReturns (text : List Char) :
    spellings (withReturns text) = spellings text := by
  induction text using byLines with
  | last line hline => rw [withReturns_of_notMem hline]
  | newline line rest hline ih =>
    have hr : AllBlank ['\r'] := by decide
    have hline' : '\n' ∉ line ++ ['\r'] := by simp [hline]
    rw [withReturns_append_newline hline, spellings_append_newline hline',
      spellings_append_newline hline, ih, spelling, spelling, codeWords_append_of_allBlank hr]

/-- A text is rewritten: one of its lines, or the ends of all of them. -/
inductive Relaid : List Char → List Char → Prop
  | line {before line line' behind : List Char} : IsLine before line behind → LineEdit line line' →
      Relaid (before ++ line ++ behind) (before ++ line' ++ behind)
  | returns (text : List Char) : Relaid text (withReturns text)

/-- **A rewritten text has lines that spell the same.** -/
theorem Relaid.spellings_eq (h : Relaid text text') : spellings text' = spellings text := by
  cases h with
  | line hline hedit =>
    have hline' : IsLine _ _ _ := ⟨hline.endsLine, hedit.newline_notMem hline.newline_notMem,
      hline.behind.imp_right fun h => ⟨h.1, hedit.ne_nil h.2⟩⟩
    rw [hline'.spellings_eq, hline.spellings_eq, hedit.spelling_eq]
  | returns => exact spellings_withReturns text

theorem spellings_eq_of_relaid (h : Relation.ReflTransGen Relaid text text') :
    spellings text' = spellings text := by
  induction h with
  | refl => rfl
  | tail _ hstep ih => rw [hstep.spellings_eq, ih]

/-- **Layout does not matter.** However often a text is rewritten, its lines are read as before,
faults included, and the same program or the same fault comes out. -/
theorem assemble_of_relaid {source source' : String}
    (h : Relation.ReflTransGen Relaid source.toList source'.toList) :
    tokenize source' = tokenize source ∧ Listing.ofSource source' = Listing.ofSource source ∧
      Program.assemble source' = Program.assemble source := by
  have htokens : tokenize source' = tokenize source := by
    rw [tokenize_eq_mapIdx, tokenize_eq_mapIdx, spellings_eq_of_relaid h]
  have hlisting : Listing.ofSource source' = Listing.ofSource source := by
    rw [Listing.ofSource, Listing.ofSource, htokens]
  exact ⟨htokens, hlisting, by rw [Program.assemble, Program.assemble, hlisting]⟩

/-- A label with a word too many behind it is written in five steps in another way. -/
theorem assemble_of_relaid_label :
    let source := "begin\nf: pop"
    let source' := "BEGIN\r\n LABEL f pop;x"
    let f : Fault := .assembly 2 (.cause (.tooManyArguments "pop"))
    Relation.ReflTransGen Relaid source.toList source'.toList ∧
      Program.assemble source = .error f ∧ Program.assemble source' = .error f := by
  intro source source' f
  have hfirst : ∀ line, '\n' ∉ line → IsLine [] line "\nf: pop".toList := fun line hline =>
    ⟨Or.inl rfl, hline, Or.inl rfl⟩
  have hsecond : ∀ line, '\n' ∉ line → line ≠ [] → IsLine "BEGIN\n".toList line [] :=
    fun line hline hne => ⟨Or.inr rfl, hline, Or.inr ⟨rfl, hne⟩⟩
  have hcase : LineEdit "begin".toList "BEGIN".toList :=
    @LineEdit.letterCase [] [] "begin".toList "BEGIN".toList (by decide) (by decide) (by decide)
      (by decide) rfl
  have hlabel : LineEdit "f: pop".toList "LABEL f pop".toList :=
    @LineEdit.label [] " pop".toList ['f'] (by decide) (by decide) (by decide) (by decide)
  have hblank : LineEdit "LABEL f pop".toList " LABEL f pop".toList :=
    @LineEdit.blanks [] "LABEL f pop".toList [' '] (by decide) (by decide) (by decide)
  have hcomment : LineEdit " LABEL f pop".toList " LABEL f pop;x".toList :=
    @LineEdit.comment " LABEL f pop".toList [] ['x'] ';' rfl (by decide) (by decide)
  have h₁ : Relaid "begin\nf: pop".toList "BEGIN\nf: pop".toList :=
    .line (hfirst "begin".toList (by decide)) hcase
  have h₂ : Relaid "BEGIN\nf: pop".toList "BEGIN\nLABEL f pop".toList :=
    .line (hsecond "f: pop".toList (by decide) (by decide)) hlabel
  have h₃ : Relaid "BEGIN\nLABEL f pop".toList "BEGIN\n LABEL f pop".toList :=
    .line (hsecond "LABEL f pop".toList (by decide) (by decide)) hblank
  have h₄ : Relaid "BEGIN\n LABEL f pop".toList "BEGIN\n LABEL f pop;x".toList :=
    .line (hsecond " LABEL f pop".toList (by decide) (by decide)) hcomment
  have h₅ : Relaid "BEGIN\n LABEL f pop;x".toList "BEGIN\r\n LABEL f pop;x".toList := .returns _
  have h : Relation.ReflTransGen Relaid source.toList source'.toList :=
    ((((Relation.ReflTransGen.single h₁).tail h₂).tail h₃).tail h₄).tail h₅
  have hbad : Program.assemble source = .error f := by decide +kernel
  exact ⟨h, hbad, (assemble_of_relaid h).2.2.trans hbad⟩

end StackMachine
