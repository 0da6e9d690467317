/-
# The lines of a text, and how an input gives them out

`Text.lines` cuts a text behind each newline.  Nothing is lost, and each piece is a whole line: only
the last one can be without a newline (`areLines_lines`).

In UTF-8 the byte of a newline is a newline and never a part of something else.  So an input that
holds the bytes of a text gives out the lines of the text, whole and in order, whoever asks for
them: behind the first `n` lines it is `Input.behind text n`, and a reading takes it from there to
`Input.behind text (n + 1)` (`Input.readLine_behind`).
-/
import Mathlib
import Lox.Eval.State

namespace Lox

namespace Text

/-! ## 1. Lines

Cutting up is a function of the characters, so it can be said without bytes. -/

/-- Cuts characters behind each newline. -/
def cut : List Char → List (List Char)
  | [] => []
  | c :: rest =>
    if c = '\n' then [c] :: cut rest
    else
      match cut rest with
      | [] => [[c]]
      | line :: lines => (c :: line) :: lines

/-- The lines of a text, each with the newline that ends it. -/
def lines (text : String) : List String := (cut text.toList).map String.ofList

/-- The text behind its first lines. -/
def behind (text : String) (n : Nat) : String := String.join ((lines text).drop n)

/-- A newline by itself is a line. -/
theorem cut_newline (rest : List Char) : cut ('\n' :: rest) = ['\n'] :: cut rest := by
  rw [cut, if_pos rfl]

/-- A character that is no newline belongs to the line behind it. -/
theorem cut_other {c : Char} (other : c ≠ '\n') (rest : List Char) :
    cut (c :: rest) = (c :: (cut rest).headD []) :: (cut rest).tail := by
  rw [cut, if_neg other]
  cases cut rest <;> rfl

/-- Nothing is lost when a text is cut up. -/
theorem flatten_cut (text : List Char) : (cut text).flatten = text := by
  induction text with
  | nil => rfl
  | cons c rest ih =>
    by_cases newline : c = '\n'
    · subst newline
      rw [cut_newline, List.flatten_cons, ih]
      rfl
    · rw [cut_other newline]
      cases hcut : cut rest with
      | nil =>
        rw [hcut] at ih
        rw [← ih]
        rfl
      | cons line lines =>
        rw [hcut] at ih
        rw [← ih]
        rfl

/-- No line is empty, and a newline stands only at its end. -/
theorem cut_whole (text : List Char) : ∀ line ∈ cut text, line ≠ [] ∧ '\n' ∉ line.dropLast := by
  induction text with
  | nil => simp [cut]
  | cons c rest ih =>
    by_cases newline : c = '\n'
    · subst newline
      rw [cut_newline]
      intro line mem
      rcases List.mem_cons.1 mem with rfl | mem
      · simp
      · exact ih line mem
    · rw [cut_other newline]
      intro line mem
      rcases List.mem_cons.1 mem with rfl | mem
      · refine ⟨List.cons_ne_nil _ _, ?_⟩
        cases hcut : cut rest with
        | nil => simp
        | cons line lines =>
          obtain ⟨filled, whole⟩ := ih line (hcut ▸ List.mem_cons_self)
          rw [List.headD_cons, List.dropLast_cons_of_ne_nil filled, List.mem_cons, not_or]
          exact ⟨Ne.symm newline, whole⟩
      · exact ih line (List.mem_of_mem_tail mem)

/-- A newline ends each line but the last one. -/
theorem cut_ends (text : List Char) : ∀ line ∈ (cut text).dropLast, line.getLast? = some '\n' := by
  induction text with
  | nil => simp [cut]
  | cons c rest ih =>
    cases hcut : cut rest with
    | nil =>
      by_cases newline : c = '\n'
      · simp [newline, cut_newline, hcut]
      · simp [cut_other newline, hcut]
    | cons first lines =>
      rw [hcut] at ih
      by_cases newline : c = '\n'
      · subst newline
        rw [cut_newline, hcut, List.dropLast_cons_of_ne_nil (List.cons_ne_nil _ _)]
        intro line mem
        rcases List.mem_cons.1 mem with rfl | mem
        · rfl
        · exact ih line mem
      · rw [cut_other newline, hcut, List.headD_cons, List.tail_cons]
        cases lines with
        | nil => simp
        | cons second lines =>
          simp only [List.dropLast_cons_cons, List.mem_cons, forall_eq_or_imp] at ih ⊢
          refine ⟨?_, ih.2⟩
          rw [List.getLast?_cons, ih.1]
          rfl

/-- Behind a line the text has the lines that follow it. -/
theorem cut_flatten_tail (text : List Char) : cut (cut text).tail.flatten = (cut text).tail := by
  induction text with
  | nil => rfl
  | cons c rest ih =>
    by_cases newline : c = '\n'
    · subst newline
      rw [cut_newline, List.tail_cons, flatten_cut]
    · rw [cut_other newline, List.tail_cons, ih]

/-- What is left behind some lines is cut up as before. -/
theorem cut_flatten_drop (text : List Char) (n : Nat) :
    cut ((cut text).drop n).flatten = (cut text).drop n := by
  induction n with
  | zero => rw [List.drop_zero, flatten_cut]
  | succ n ih => rw [← List.tail_drop, ← ih, cut_flatten_tail, ih]

theorem toList_behind (text : String) (n : Nat) :
    (behind text n).toList = ((cut text.toList).drop n).flatten := by
  have back : String.toList ∘ String.ofList = id := funext fun _ => String.toList_ofList
  rw [behind, String.join_eq, String.toList_ofList, lines, List.map_drop, List.map_map, back,
    List.map_id]

/-- The lines of a text make up the text. -/
theorem join_lines (text : String) : String.join (lines text) = text := by
  rw [← List.drop_zero (l := lines text), ← behind, ← String.toList_inj, toList_behind,
    List.drop_zero, flatten_cut]

/-- Texts that are the lines of a text, whole and in order. -/
structure AreLines (lines : List String) (text : String) : Prop where
  /-- Nothing is lost, added or moved. -/
  join : String.join lines = text
  /-- No line is empty, and a newline stands only at its end. -/
  whole : ∀ line ∈ lines, line ≠ "" ∧ '\n' ∉ line.toList.dropLast
  /-- A newline ends each line but the last one. -/
  ends : ∀ line ∈ lines.dropLast, line.toList.getLast? = some '\n'

/-- Each line but the last ends with its newline, and has no other one. -/
theorem areLines_lines (text : String) : AreLines (lines text) text where
  join := join_lines text
  whole := by
    intro line mem
    obtain ⟨chars, cut, rfl⟩ := List.mem_map.1 mem
    obtain ⟨filled, whole⟩ := cut_whole text.toList chars cut
    refine ⟨fun empty => filled ?_, ?_⟩
    · rwa [← String.toList_inj, String.toList_ofList] at empty
    · rwa [String.toList_ofList]
  ends := by
    intro line mem
    rw [lines, ← List.map_dropLast] at mem
    obtain ⟨chars, cut, rfl⟩ := List.mem_map.1 mem
    rw [String.toList_ofList]
    exact cut_ends text.toList chars cut

/-! ## 2. Bytes

No byte of a longer character is that of a newline. -/

/-- The bytes of characters. -/
abbrev bytes (text : List Char) : Bytes := text.flatMap String.utf8EncodeChar

/-- The bytes of a text are those of its characters. -/
theorem encode_eq (text : String) : encode text = bytes text.toList := by
  have whole : text.toByteArray = text.toList.utf8Encode := by
    rw [← String.toByteArray_ofList, String.ofList_toList]
  rw [encode, String.toUTF8_eq_toByteArray, whole, List.utf8Encode, List.data_toByteArray]

/-- A byte of a character is the byte of a newline only if the character is a newline. -/
theorem eq_newline_of_mem {c : Char} (mem : newlineByte ∈ String.utf8EncodeChar c) : c = '\n' := by
  -- All bytes of a character that has several are 128 or more.
  have large : ∀ n, 128 ≤ n → n < 256 → newlineByte ≠ UInt8.ofNat n := by
    intro n least most same
    have numbers := congrArg UInt8.toNat same
    rw [UInt8.toNat_ofNat', Nat.mod_eq_of_lt most] at numbers
    change 10 = n at numbers
    omega
  unfold String.utf8EncodeChar at mem
  dsimp only at mem
  split at mem
  · have numbers := congrArg UInt8.toNat (List.mem_singleton.1 mem)
    rw [UInt8.toNat_ofNat', Nat.mod_eq_of_lt (by omega)] at numbers
    exact Char.toNat_inj.1 numbers.symm
  · exfalso
    split at mem
    · simp only [List.mem_cons, List.not_mem_nil, or_false] at mem
      rcases mem with same | same <;> exact large _ (by omega) (by omega) same
    · split at mem
      · simp only [List.mem_cons, List.not_mem_nil, or_false] at mem
        rcases mem with same | same | same <;> exact large _ (by omega) (by omega) same
      · simp only [List.mem_cons, List.not_mem_nil, or_false] at mem
        rcases mem with same | same | same | same <;> exact large _ (by omega) (by omega) same

/-- Bytes without a newline belong to the line behind them. -/
theorem takeLine_append_of_notMem {first : Bytes} (free : newlineByte ∉ first) (rest : Bytes) :
    takeLine (first ++ rest) = (first ++ (takeLine rest).1, (takeLine rest).2) := by
  induction first with
  | nil => rfl
  | cons b first ih =>
    obtain ⟨other, free⟩ := not_or.1 (mt List.mem_cons.2 free)
    rw [List.cons_append, takeLine, if_neg (Ne.symm other), ih free]
    rfl

/-- The first line of the bytes of a text is that of the text. -/
theorem takeLine_bytes (text : List Char) :
    takeLine (bytes text) = (bytes ((cut text).headD []), bytes (cut text).tail.flatten) := by
  induction text with
  | nil => rfl
  | cons c rest ih =>
    rw [bytes, List.flatMap_cons]
    by_cases newline : c = '\n'
    · subst newline
      rw [cut_newline, List.headD_cons, List.tail_cons, flatten_cut]
      rfl
    · rw [takeLine_append_of_notMem (mt eq_newline_of_mem newline), ih, cut_other newline]
      rfl

/-- The first line of what is behind some lines is the line that follows them. -/
theorem takeLine_behind (text : String) (n : Nat) :
    takeLine (encode (behind text n)) =
      (encode ((lines text)[n]?.getD ""), encode (behind text (n + 1))) := by
  have line : ((lines text)[n]?.getD "").toList = ((cut text.toList).drop n).headD [] := by
    rw [lines, List.getElem?_map, List.headD_eq_head?_getD, List.head?_drop]
    cases (cut text.toList)[n]? with
    | none => rfl
    | some line => exact String.toList_ofList
  rw [encode_eq, encode_eq, encode_eq, toList_behind, toList_behind, line, takeLine_bytes,
    cut_flatten_drop, List.tail_drop]

/-- A text with characters has bytes. -/
theorem encode_ne_nil {text : String} (h : text ≠ "") : encode text ≠ [] := by
  intro empty
  have decoded := decode?_encode text
  rw [empty] at decoded
  exact h (Option.some.inj (decoded.symm.trans (decode?_encode "")))

/-- There are no more lines than bytes. -/
theorem length_lines_le (text : String) : (lines text).length ≤ (encode text).length := by
  rw [lines, List.length_map, encode_eq]
  induction text.toList with
  | nil => exact Nat.le_refl _
  | cons c rest ih =>
    have size : 0 < (String.utf8EncodeChar c).length := by
      rw [String.length_utf8EncodeChar]
      exact c.utf8Size_pos
    have behind : bytes (c :: rest) = String.utf8EncodeChar c ++ bytes rest := rfl
    rw [behind, List.length_append]
    by_cases newline : c = '\n'
    · subst newline
      rw [cut_newline, List.length_cons]
      omega
    · rw [cut_other newline, List.length_cons, List.length_tail]
      omega

/-! ## 3. Endings

The ending of a line is a newline, or a carriage return and a newline. -/

/-- What is left of a line without all the carriage returns and newlines at its end. -/
structure Trims (line value : String) : Prop where
  ending : ∃ ending, line = value ++ ending ∧ ∀ c ∈ ending.toList, c = '\n' ∨ c = '\r'
  last : ∀ c ∈ value.toList.getLast?, ¬ (c = '\n' ∨ c = '\r')

/-- What is taken off a line is its ending. -/
theorem trims_dropEnding (line : String) : Trims line (dropEnding line) := by
  let p : Char → Bool := fun c => c = '\n' || c = '\r'
  have parts := List.takeWhile_append_dropWhile (p := p) (l := line.toList.reverse)
  constructor
  · refine ⟨String.ofList (line.toList.reverse.takeWhile p).reverse, ?_, fun c mem => ?_⟩
    · rw [← String.toList_inj, String.toList_append, dropEnding, dropRight, String.toList_ofList,
        String.toList_ofList, ← List.reverse_append, parts, List.reverse_reverse]
    · rw [String.toList_ofList, List.mem_reverse] at mem
      simpa [p] using List.mem_takeWhile_imp mem
  · intro c last
    rw [dropEnding, dropRight, String.toList_ofList, List.getLast?_reverse] at last
    have stops := List.head?_dropWhile_not p line.toList.reverse
    rw [Option.mem_def.1 last] at stops
    simpa [p] using stops

end Text

/-! ## 4. Inputs

A reading takes bytes up to a newline, and these are a line of the text. -/

/-- What asking for a line finds, where there is one or none. -/
def LineRead.of : Option String → LineRead
  | some text => .line text
  | none => .ended

/-- An input that holds a text and has given out its first lines. -/
def Input.behind (text : String) (n : Nat) : Input := ⟨Text.encode (Text.behind text n), true⟩

/-- Before the first reading, the input holds the whole text. -/
theorem Input.behind_zero (text : String) : behind text 0 = ⟨Text.encode text, true⟩ := by
  rw [behind, Text.behind, List.drop_zero, Text.join_lines]

/-- **The next line is given out whole, and it is the only one that is taken.**  Behind the last
line, nothing is taken. -/
theorem Input.readLine_behind (text : String) (n : Nat) :
    (behind text n).readLine = (.of (Text.lines text)[n]?, behind text (n + 1)) := by
  have taken := Text.takeLine_behind text n
  cases found : (Text.lines text)[n]? with
  | some line =>
    rw [found, Option.getD_some] at taken
    have filled := ((Text.areLines_lines text).whole line (List.mem_of_getElem? found)).1
    simp [readLine, behind, taken, Text.encode_ne_nil filled, Text.decode?_encode, LineRead.of]
  | none =>
    have exhausted := List.getElem?_eq_none_iff.1 found
    have same : behind text (n + 1) = behind text n := by
      rw [behind, behind, Text.behind, Text.behind, List.drop_of_length_le exhausted,
        List.drop_of_length_le (by omega)]
    rw [found, Option.getD_none] at taken
    rw [same]
    have nothing : Text.encode "" = [] := rfl
    simp [readLine, behind, taken, nothing, LineRead.of]

end Lox
