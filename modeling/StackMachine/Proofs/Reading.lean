import Mathlib.Data.List.Induction
import StackMachine.Console.Stream
import StackMachine.Proofs.Finishes
import StackMachine.Proofs.Image
import StackMachine.Proofs.Layout

/-!
# Reading input

What a console on byte streams has to read are the words of the input, line by line, and a failure
for each line that is no text. Reads deliver these events in order, one each, whatever is written
between them, and take no line before its turn.

* `inputEvents`: the events of an input; **`inputEvents_utf8`**: those of a text are its words.
* `Shortest`: the lines from the front that are needed for a number of events.
* `Console.served`: the state of a console behind requests.
* `Stream.Delivered`: a stream behind requests; **`delivered_serve`**, **`delivered_served`**.
* **`reads_deliver_events`**: what reads answer, what they take and what is written.
-/

namespace StackMachine

/-! ## Events -/

/-- What the input holds for a read. -/
inductive InputEvent
  | word (text : String)
  /-- A line that is no text. -/
  | failure
  deriving DecidableEq, Repr

namespace InputEvent

/-- The words of a text. -/
def ofText (text : List Char) : List InputEvent :=
  (words text).map fun word => .word (String.ofList word)

/-- What is found where an event is looked for. -/
def found : Option InputEvent → Except Cause String
  | some (word text) => .ok text
  | some failure => .error (.consoleError "stream did not contain valid UTF-8")
  | none => .error .inputExhausted

/-- What a read answers for an event: the integer that the word denotes. -/
def answer (event : Option InputEvent) : Except Fault Int64 :=
  ((found event).bind integer).mapError .cause

end InputEvent

/-- The events of a line: its words, or a failure. -/
def lineEvents (line : Bytes) : List InputEvent :=
  match ofUtf8? line with
  | none => [.failure]
  | some text => InputEvent.ofText text.toList

/-- The events of an input, line by line. -/
def inputEvents (input : Bytes) : List InputEvent :=
  (cutLines input).flatMap lineEvents

theorem lineEvents_utf8 (text : String) :
    lineEvents (utf8 text) = InputEvent.ofText text.toList := by
  rw [lineEvents, ofUtf8?_utf8]

/-! ## The events of a text -/

section Text

variable {line rest : Bytes} {text : List Char}

theorem cutLinesFrom_append_of_notMem (h : newline ∉ line) (before rest : Bytes) :
    cutLinesFrom before (line ++ rest) = cutLinesFrom (line.reverse ++ before) rest := by
  induction line generalizing before with
  | nil => rfl
  | cons b line ih =>
    obtain ⟨hb, hline⟩ := not_or.1 (mt List.mem_cons.2 h)
    rw [List.cons_append, cutLinesFrom, if_neg (Ne.symm hb), ih hline, List.reverse_cons,
      List.append_assoc, List.singleton_append]

/-- **The first newline ends the first line.** -/
theorem cutLines_newline (h : newline ∉ line) (rest : Bytes) :
    cutLines (line ++ newline :: rest) = (line ++ [newline]) :: cutLines rest := by
  rw [cutLines, cutLinesFrom_append_of_notMem h, cutLinesFrom, if_pos rfl]
  simp [cutLines]

theorem cutLines_eq_singleton (h : newline ∉ line) (hne : line ≠ []) : cutLines line = [line] := by
  have hcut := cutLinesFrom_append_of_notMem h [] []
  rw [List.append_nil, List.append_nil, cutLinesFrom, if_neg (by simpa using hne),
    List.reverse_reverse] at hcut
  exact hcut

theorem newline_notMem_utf8 (h : '\n' ∉ text) : newline ∉ utf8 (String.ofList text) := by
  have hmem : newline ∈ utf8 (String.ofList text) ↔ '\n' ∈ (String.ofList text).toList :=
    ofNat_mem_utf8_iff (a := '\n') (by decide)
  rw [hmem, String.toList_ofList]
  exact h

theorem utf8_append_newline (line rest : List Char) :
    utf8 (String.ofList (line ++ '\n' :: rest)) =
      utf8 (String.ofList line) ++ newline :: utf8 (String.ofList rest) := by
  have hnewline : String.utf8EncodeChar '\n' = [newline] := by decide
  simp only [utf8_eq_flatMap, String.toList_ofList, List.flatMap_append, List.flatMap_cons,
    hnewline, List.singleton_append]

/-- **The events of a text are its words**, as if it were not cut into lines. -/
theorem inputEvents_utf8 (text : List Char) :
    inputEvents (utf8 (String.ofList text)) = InputEvent.ofText text := by
  induction text using byLines with
  | last line hline =>
    obtain rfl | hne := eq_or_ne line []
    · rfl
    · have hbytes : utf8 (String.ofList line) ≠ [] := fun he =>
        hne (String.ofList_inj.1 (utf8_injective he))
      rw [inputEvents, cutLines_eq_singleton (newline_notMem_utf8 hline) hbytes,
        List.flatMap_singleton, lineEvents_utf8, String.toList_ofList]
  | newline line rest hline ih =>
    have hend : utf8 (String.ofList line) ++ [newline] = utf8 (String.ofList (line ++ ['\n'])) :=
      (utf8_append_newline line []).symm
    rw [inputEvents, utf8_append_newline, cutLines_newline (newline_notMem_utf8 hline),
      List.flatMap_cons, hend, lineEvents_utf8, ← inputEvents, ih, String.toList_ofList]
    simp only [InputEvent.ofText, words_append_cons isBlank_newline, words_nil, List.append_nil,
      List.map_append]

end Text

/-! ## Lines that are needed -/

/-- The shortest part of the lines, from the front, that holds so many events, or all lines if they
hold fewer. -/
structure Shortest (k : Nat) (lines taken : List Bytes) : Prop where
  front : taken <+: lines
  enough : k ≤ (taken.flatMap lineEvents).length ∨ taken = lines
  least : ∀ part, part <+: taken → part ≠ taken → (part.flatMap lineEvents).length < k

namespace Shortest

variable {k : Nat} {lines taken rest more : List Bytes} {line : Bytes}

theorem zero (lines : List Bytes) : Shortest 0 lines [] where
  front := List.nil_prefix
  enough := .inl (Nat.zero_le _)
  least _ hpart hne := absurd (List.prefix_nil.1 hpart) hne

theorem one_nil : Shortest 1 [] [] where
  front := List.prefix_rfl
  enough := .inr rfl
  least _ hpart hne := absurd (List.prefix_nil.1 hpart) hne

theorem one_cons (h : lineEvents line ≠ []) (rest : List Bytes) :
    Shortest 1 (line :: rest) [line] where
  front := ⟨rest, rfl⟩
  enough := .inl <| by
    rw [List.flatMap_singleton]
    exact List.length_pos_iff.2 h
  least part hpart hne := by
    obtain rfl | ⟨tail, rfl, htail⟩ := List.prefix_cons_iff.1 hpart
    · exact Nat.one_pos
    · exact absurd (congrArg _ (List.prefix_nil.1 htail)) hne

theorem cons (hline : lineEvents line = []) (hk : 0 < k) (h : Shortest k lines taken) :
    Shortest k (line :: lines) (line :: taken) where
  front := List.cons_prefix_cons.2 ⟨rfl, h.front⟩
  enough := h.enough.imp (fun henough => by simpa [hline] using henough) (congrArg _)
  least part hpart hne := by
    obtain rfl | ⟨tail, rfl, htail⟩ := List.prefix_cons_iff.1 hpart
    · exact hk
    · simpa [hline] using h.least tail htail fun he => hne (congrArg _ he)

theorem succ (h : Shortest k lines taken) (hmore : k < (taken.flatMap lineEvents).length) :
    Shortest (k + 1) lines taken where
  front := h.front
  enough := .inl hmore
  least part hpart hne := Nat.lt_succ_of_lt (h.least part hpart hne)

theorem append (h : Shortest k (taken ++ rest) taken)
    (hle : (taken.flatMap lineEvents).length ≤ k) (hmore : Shortest 1 rest more) :
    Shortest (k + 1) (taken ++ rest) (taken ++ more) where
  front := (List.prefix_append_right_inj taken).2 hmore.front
  enough := by
    rw [List.flatMap_append, List.length_append]
    obtain hone | rfl := hmore.enough
    · obtain hk | hall := h.enough
      · exact .inl (Nat.add_le_add hk hone)
      · obtain rfl : rest = [] := List.self_eq_append_right.1 hall
        rw [List.prefix_nil.1 hmore.front]
        exact .inr rfl
    · exact .inr rfl
  least part hpart hne := by
    obtain ⟨tail, rfl⟩ | ⟨tail, rfl⟩ :=
      List.prefix_or_prefix_of_prefix hpart (List.prefix_append taken more)
    · rw [List.flatMap_append, List.length_append] at hle
      omega
    · have htail : tail <+: more := (List.prefix_append_right_inj taken).1 hpart
      have hlt := hmore.least tail htail fun he => hne (congrArg _ he)
      rw [List.flatMap_append, List.length_append]
      omega

end Shortest

/-! ## Requests -/

/-- The bytes that are written on a request. -/
def Request.shown (prompt : Option String) : Request → Bytes
  | read => prompt.elim [] utf8
  | write value => utf8 (Decimal.write value) ++ [newline]

/-- The state of a console behind a request. -/
def Console.serve {σ : Type} (console : Console σ) (s : σ) : Request → σ
  | .read => (console.read s).2
  | .write value => (console.write value s).2

/-- The state of a console behind requests. -/
def Console.served {σ : Type} (console : Console σ) (s : σ) (requests : List Request) : σ :=
  requests.foldl console.serve s

/-! ## Streams -/

namespace Stream

variable {s : Stream} {k : Nat} {lines taken : List Bytes}

/-- The events that are not read yet. -/
def events (s : Stream) : List InputEvent :=
  s.pending.map .word ++ s.input.flatMap lineEvents

theorem lineEvents_of_error {line : Bytes} {c : Cause} (h : wordsOfLine line = .error c) :
    lineEvents line = [.failure] ∧ InputEvent.found (some .failure) = .error c := by
  unfold wordsOfLine at h
  unfold lineEvents
  cases hline : ofUtf8? line with
  | none =>
    rw [hline] at h
    cases h
    exact ⟨rfl, rfl⟩
  | some text =>
    rw [hline] at h
    cases h

theorem lineEvents_of_ok {line : Bytes} {pending : List String}
    (h : wordsOfLine line = .ok pending) : lineEvents line = pending.map .word := by
  unfold wordsOfLine at h
  unfold lineEvents
  cases hline : ofUtf8? line with
  | none =>
    rw [hline] at h
    cases h
  | some text =>
    rw [hline] at h
    cases h
    simp [InputEvent.ofText]

/-- **The first word of the lines is their first event**; the other events are left. -/
theorem firstWord_events (lines : List Bytes) :
    (firstWord lines).1 = InputEvent.found (lines.flatMap lineEvents).head? ∧
      (firstWord lines).2.1.map .word ++ (firstWord lines).2.2.flatMap lineEvents =
        (lines.flatMap lineEvents).tail := by
  fun_induction firstWord lines with
  | case1 => exact ⟨rfl, rfl⟩
  | case2 line rest c hc =>
    obtain ⟨hline, hfound⟩ := lineEvents_of_error hc
    rw [List.flatMap_cons, hline]
    exact ⟨hfound.symm, rfl⟩
  | case3 line rest hw ih =>
    rw [List.flatMap_cons, lineEvents_of_ok hw]
    exact ih
  | case4 line rest word pending hw =>
    rw [List.flatMap_cons, lineEvents_of_ok hw]
    exact ⟨rfl, rfl⟩

/-- **The lines that are taken for the first word** are no more than it needs. -/
theorem firstWord_shortest (lines : List Bytes) :
    ∃ taken, lines = taken ++ (firstWord lines).2.2 ∧ Shortest 1 lines taken := by
  fun_induction firstWord lines with
  | case1 => exact ⟨[], rfl, .one_nil⟩
  | case2 line rest c hc =>
    have hline : lineEvents line ≠ [] := by simp [(lineEvents_of_error hc).1]
    exact ⟨[line], rfl, .one_cons hline rest⟩
  | case3 line rest hw ih =>
    obtain ⟨taken, htaken, hshort⟩ := ih
    exact ⟨line :: taken, congrArg _ htaken, hshort.cons (lineEvents_of_ok hw) Nat.one_pos⟩
  | case4 line rest word pending hw =>
    have hline : lineEvents line ≠ [] := by simp [lineEvents_of_ok hw]
    exact ⟨[line], rfl, .one_cons hline rest⟩

theorem nextWord_events (s : Stream) :
    s.nextWord.1 = InputEvent.found s.events.head? ∧ s.nextWord.2.events = s.events.tail := by
  obtain ⟨input, _ | ⟨word, pending⟩, prompt, output, room⟩ := s
  · exact firstWord_events input
  · exact ⟨rfl, rfl⟩

/-- **A word is taken with no more lines than it needs.** -/
theorem nextWord_shortest (hlines : lines = taken ++ s.input) (h : Shortest k lines taken)
    (hevents : s.events = (lines.flatMap lineEvents).drop k) :
    ∃ taken, lines = taken ++ s.nextWord.2.input ∧ Shortest (k + 1) lines taken := by
  subst hlines
  -- the words of the last line that are left are the events taken too many
  have hcount := congrArg List.length hevents
  simp only [events, List.flatMap_append, List.length_append, List.length_drop, List.length_map]
    at hcount
  obtain ⟨input, _ | ⟨word, pending⟩, prompt, output, room⟩ := s
  · obtain ⟨more, hmore, hshort⟩ := firstWord_shortest input
    simp only [List.length_nil] at hcount
    refine ⟨taken ++ more, ?_, h.append (by omega) hshort⟩
    rw [List.append_assoc]
    exact congrArg _ hmore
  · simp only [List.length_cons] at hcount
    exact ⟨taken, rfl, h.succ (by omega)⟩

theorem put_of_room (h : s.room = none) (bytes : Bytes) :
    s.put bytes = (.ok (), { s with output := s.output ++ bytes }) := by
  rw [put, h]

theorem putPrompt_of_room (h : s.room = none) :
    s.putPrompt = (.ok (), { s with output := s.output ++ Request.read.shown s.prompt }) := by
  obtain ⟨input, pending, _ | prompt, output, room⟩ := s
  · simp [putPrompt, Request.shown]
  · exact put_of_room h (utf8 prompt)

theorem nextWord_output (s : Stream) (output : Bytes) : nextWord { s with output } =
    (s.nextWord.1, { s.nextWord.2 with output }) := by
  obtain ⟨input, _ | ⟨word, pending⟩, prompt, _, room⟩ := s <;> rfl

theorem nextWord_keeps (s : Stream) :
    s.nextWord.2.prompt = s.prompt ∧ s.nextWord.2.room = s.room := by
  obtain ⟨input, _ | ⟨word, pending⟩, prompt, output, room⟩ := s <;> exact ⟨rfl, rfl⟩

/-- **A read answers the first event**, behind the prompt. -/
theorem console_read_of_room (h : s.room = none) :
    console.read s = (InputEvent.answer s.events.head?,
      { s.nextWord.2 with output := s.output ++ Request.read.shown s.prompt }) := by
  have hword := (nextWord_events s).1
  simp only [console, readInteger, putPrompt_of_room h, nextWord_output, InputEvent.answer, ← hword]
  rcases s.nextWord with ⟨c | word, s'⟩ <;> rfl

theorem console_write_of_room (h : s.room = none) (value : Int64) :
    console.write value s =
      (.ok (), { s with output := s.output ++ (Request.write value).shown s.prompt }) := by
  simp only [console, writeInteger, put_of_room h]
  rfl

/-! ## Streams behind requests -/

/-- A stream on an input, behind requests. -/
structure Delivered (input : Bytes) (prompt : Option String) (before : List Request)
    (s : Stream) : Prop where
  /-- One event is gone for each read. -/
  left : s.events = (inputEvents input).drop (before.count .read)
  taken : ∃ taken, cutLines input = taken ++ s.input ∧
    Shortest (before.count .read) (cutLines input) taken
  output : s.output = before.flatMap (Request.shown prompt)
  prompts : s.prompt = prompt
  boundless : s.room = none

variable {input : Bytes} {prompt : Option String} {before : List Request}

theorem delivered_nil (input : Bytes) (prompt : Option String) :
    Delivered input prompt [] { input := cutLines input, prompt } where
  left := rfl
  taken := ⟨[], rfl, .zero _⟩
  output := rfl
  prompts := rfl
  boundless := rfl

/-- **A request** takes one event if it is a read, and none if it is a write. -/
theorem delivered_serve (h : Delivered input prompt before s) (request : Request) :
    Delivered input prompt (before ++ [request]) (console.serve s request) := by
  obtain ⟨hleft, ⟨taken, hlines, hshort⟩, houtput, hprompts, hroom⟩ := h
  have hshown : (before ++ [request]).flatMap (Request.shown prompt) =
      s.output ++ request.shown s.prompt := by
    rw [List.flatMap_append, List.flatMap_singleton, houtput, hprompts]
  cases request with
  | read =>
    have hcount : (before ++ [Request.read]).count .read = before.count .read + 1 := by simp
    have hserve : console.serve s .read =
        { s.nextWord.2 with output := s.output ++ Request.read.shown s.prompt } :=
      congrArg Prod.snd (console_read_of_room hroom)
    have hevents : s.nextWord.2.events = (inputEvents input).drop (before.count .read + 1) := by
      rw [(nextWord_events s).2, hleft, List.tail_drop]
    rw [hserve]
    exact ⟨hcount ▸ hevents, hcount ▸ nextWord_shortest hlines hshort hleft, hshown.symm,
      (nextWord_keeps s).1.trans hprompts, (nextWord_keeps s).2.trans hroom⟩
  | write value =>
    have hcount : (before ++ [Request.write value]).count .read = before.count .read := by simp
    have hserve : console.serve s (.write value) =
        { s with output := s.output ++ (Request.write value).shown s.prompt } :=
      congrArg Prod.snd (console_write_of_room hroom value)
    rw [hserve]
    exact ⟨hcount ▸ hleft, ⟨taken, hlines, hcount ▸ hshort⟩, hshown.symm, hprompts, hroom⟩

theorem delivered_served (input : Bytes) (prompt : Option String) (before : List Request) :
    Delivered input prompt before
      (console.served { input := cutLines input, prompt } before) := by
  induction before using List.reverseRecOn with
  | nil => exact delivered_nil input prompt
  | append_singleton before request ih =>
    rw [Console.served, List.foldl_concat]
    exact delivered_serve ih request

/-- **Reads deliver the words of the input in order**, whatever is written between them. Behind any
requests the next read answers the first event that was not read yet: the integer that a word
denotes, or that it denotes none; that a line is no text; or that the input is exhausted. Writes
succeed. The output holds a prompt for each read and a line for each value, in order. Of the input,
the shortest part is taken that consists of whole lines and holds as many events as there were
reads, or all of it if it holds fewer. The events of a text are its words, as if it were not cut
into lines. -/
theorem reads_deliver_events (input : Bytes) (prompt : Option String) (before : List Request) :
    let s := console.served { input := cutLines input, prompt } before
    (console.read s).1 = InputEvent.answer (inputEvents input)[before.count .read]? ∧
    (∀ value, (console.write value s).1 = .ok ()) ∧
    s.output = before.flatMap (Request.shown prompt) ∧
    (∃ taken, cutLines input = taken ++ s.input ∧ input = taken.flatten ++ s.input.flatten ∧
      Shortest (before.count .read) (cutLines input) taken) ∧
    ∀ text, ofUtf8? input = some text → inputEvents input = InputEvent.ofText text.toList := by
  intro s
  obtain ⟨hleft, ⟨taken, hlines, hshort⟩, houtput, -, hroom⟩ :=
    delivered_served input prompt before
  have hbytes : input = taken.flatten ++ s.input.flatten := by
    rw [← List.flatten_append, ← hlines, flatten_cutLines]
  refine ⟨?_, fun value => ?_, houtput, ⟨taken, hlines, hbytes, hshort⟩, fun text htext => ?_⟩
  · rw [console_read_of_room hroom, hleft, List.head?_drop]
  · rw [console_write_of_room hroom]
  · rw [← utf8_of_ofUtf8? htext, ← String.ofList_toList (s := text), inputEvents_utf8,
      String.toList_ofList]

/-- A word that is no integer and a line that is no text take their turns between integers. -/
theorem reads_deliver_events_mixed :
    let input := utf8 "4 x\n\n" ++ [0xff, newline] ++ utf8 " 5 6\n7"
    let before : List Request := [.read, .write 8, .read, .read]
    let s := console.served { input := cutLines input, prompt := some "> " } before
    (console.read s).1 = .ok 5 ∧ s.output = utf8 "> 8\n> > " ∧
      (∃ taken, input = taken.flatten ++ s.input.flatten ∧ Shortest 3 (cutLines input) taken) ∧
      ofUtf8? (utf8 "4 x\n\n5") = some "4 x\n\n5" ∧
      inputEvents (utf8 "4 x\n\n5") = [.word "4", .word "x", .word "5"] := by
  intro input before s
  have hanswer : InputEvent.answer (inputEvents input)[before.count .read]? = .ok 5 := by
    decide +kernel
  have hshown : before.flatMap (Request.shown (some "> ")) = utf8 "> 8\n> > " := by decide +kernel
  have htext : ofUtf8? (utf8 "4 x\n\n5") = some "4 x\n\n5" := ofUtf8?_utf8 _
  obtain ⟨hread, -, houtput, ⟨taken, -, hbytes, hshort⟩, -⟩ :=
    reads_deliver_events input (some "> ") before
  have hwords := (reads_deliver_events (utf8 "4 x\n\n5") none []).2.2.2.2 _ htext
  exact ⟨hread.trans hanswer, houtput.trans hshown, ⟨taken, hbytes, hshort⟩, htext,
    hwords.trans (by decide +kernel)⟩

end Stream

end StackMachine
