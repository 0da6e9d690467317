/-
# Texts one behind the other

A newline ends whatever can be going on at the end of a text but a string, and no statement reaches
across the end of a program.  So of two texts with a newline in between the tokens of both are
scanned, those of the second text further down (`scan_join`), and the statements of both are read,
the ids of the second program behind those of the first (`parse_append`).  A program that is read
further down, or with other ids, is the same but for these (`parse_alike`).
-/
import Lox.Proofs.Syntax.Completeness
import Lox.Proofs.Syntax.Move
import Lox.Proofs.Syntax.Soundness
import Lox.Token.Scan

namespace Lox

/-- A token so many lines further down. -/
def Token.shift (k : Nat) (t : Token) : Token := { t with line := t.line + k }

/-! ## 1. Pieces in front of a newline -/

section Stop

variable {α : Type} {p : α → Bool} {stop : α} (h : p stop = false) (xs rest : List α)

include h

theorem takeWhile_append_stop : (xs ++ stop :: rest).takeWhile p = xs.takeWhile p := by
  induction xs with
  | nil => simp [h]
  | cons x xs ih =>
    rw [List.cons_append, List.takeWhile_cons, List.takeWhile_cons, ih]

theorem dropWhile_append_stop :
    (xs ++ stop :: rest).dropWhile p = xs.dropWhile p ++ stop :: rest := by
  induction xs with
  | nil => simp [h]
  | cons x xs ih =>
    rw [List.cons_append, List.dropWhile_cons, List.dropWhile_cons, ih]
    split <;> rfl

end Stop

/-- What goes on up to some character does not change if more text follows. -/
theorem takeWhile_append_of_dropWhile {α : Type} {p : α → Bool} {xs : List α} {x : α}
    {after : List α} (h : xs.dropWhile p = x :: after) (more : List α) :
    (xs ++ more).takeWhile p = xs.takeWhile p ∧ (xs ++ more).dropWhile p = x :: after ++ more := by
  induction xs with
  | nil => cases h
  | cons y xs ih =>
    rw [List.dropWhile_cons] at h
    rw [List.cons_append, List.takeWhile_cons, List.takeWhile_cons, List.dropWhile_cons]
    split at h
    · rename_i hy
      rw [if_pos hy, if_pos hy, if_pos hy, (ih h).1, (ih h).2]
      exact ⟨rfl, rfl⟩
    · rename_i hy
      rw [if_neg hy, if_neg hy, if_neg hy]
      cases h
      exact ⟨rfl, rfl⟩

/-- A newline behind a piece makes no difference to it, unless the piece is a string that has not
been closed. -/
theorem firstPiece_append_newline (c : Char) (rest more : List Char)
    (closed : (firstPiece c rest).1.kind ≠ .unclosed) :
    firstPiece c (rest ++ '\n' :: more) =
      ((firstPiece c rest).1, (firstPiece c rest).2 ++ '\n' :: more) := by
  have digit : Char.isDigit '\n' = false := rfl
  have name : isNameRest '\n' = false := rfl
  unfold firstPiece at closed ⊢
  by_cases blank : c = ' ' ∨ c = '\r' ∨ c = '\t' ∨ c = '\n'
  · rw [if_pos blank, if_pos blank]
  rw [if_neg blank] at closed ⊢
  rw [if_neg blank]
  by_cases quote : c = '"'
  · rw [if_pos quote] at closed ⊢
    rw [if_pos quote]
    dsimp only at closed ⊢
    cases tail : rest.dropWhile (· ≠ '"') with
    | nil =>
      rw [tail] at closed
      exact absurd rfl closed
    | cons last after =>
      obtain ⟨taken, left⟩ := takeWhile_append_of_dropWhile tail ('\n' :: more)
      rw [taken, left]
      rfl
  rw [if_neg quote] at closed ⊢
  rw [if_neg quote]
  by_cases number : c.isDigit = true
  · rw [if_pos number, if_pos number, takeWhile_append_stop digit, dropWhile_append_stop digit]
    dsimp only
    rcases rest.dropWhile Char.isDigit with _ | ⟨point, tail⟩
    · rfl
    by_cases hp : point = '.'
    · subst hp
      rcases tail with _ | ⟨d, tail⟩
      · rfl
      · simp only [List.cons_append]
        by_cases hd : d.isDigit = true
        · simp only [if_pos hd, ← List.cons_append, takeWhile_append_stop digit,
            dropWhile_append_stop digit]
        · simp only [if_neg hd, List.cons_append]
    · simp [hp]
  rw [if_neg number] at closed ⊢
  rw [if_neg number]
  by_cases word : isNameStart c = true
  · rw [if_pos word, if_pos word, takeWhile_append_stop name, dropWhile_append_stop name]
  rw [if_neg word] at closed ⊢
  rw [if_neg word]
  by_cases comment : c = '/' ∧ rest.head? = some '/'
  · have comment' : c = '/' ∧ (rest ++ '\n' :: more).head? = some '/' := by
      rw [List.head?_append, comment.2]
      exact ⟨comment.1, rfl⟩
    rw [if_pos comment, if_pos comment',
      takeWhile_append_stop (p := fun x => decide (x ≠ '\n')) rfl,
      dropWhile_append_stop (p := fun x => decide (x ≠ '\n')) rfl]
  · have comment' : ¬ (c = '/' ∧ (rest ++ '\n' :: more).head? = some '/') := by
      rintro ⟨slash, next⟩
      cases rest with
      | nil => cases next
      | cons x xs => exact comment ⟨slash, next⟩
    rw [if_neg comment, if_neg comment']
    cases Symbol.single? c with
    | none => rfl
    | some symbol =>
      dsimp only
      cases symbol.withEqual? with
      | none => rfl
      | some double =>
        rcases rest with _ | ⟨x, xs⟩
        · rfl
        by_cases hx : x = '='
        · subst hx
          rfl
        · simp [hx]

theorem firstPiece_newline (rest : List Char) : firstPiece '\n' rest = (⟨.gap, ['\n']⟩, rest) :=
  rfl

/-- A text in which every string is closed is cut up the same in front of a newline. -/
theorem pieces_append_newline (text more : List Char)
    (closed : ∀ piece ∈ pieces text, piece.kind ≠ .unclosed) :
    pieces (text ++ '\n' :: more) = pieces text ++ ⟨.gap, ['\n']⟩ :: pieces more := by
  fun_induction pieces text with
  | case1 =>
    rw [List.nil_append, pieces, firstPiece_newline]
    rfl
  | case2 c rest ih =>
    have first := firstPiece_append_newline c rest more (closed _ List.mem_cons_self)
    rw [List.cons_append, pieces, first]
    dsimp only
    rw [ih fun piece hmem => closed piece (List.mem_cons_of_mem _ hmem)]
    rfl

/-- A newline in front of a text is a piece of its own. -/
theorem pieces_newline (text : List Char) :
    pieces ('\n' :: text) = ⟨.gap, ['\n']⟩ :: pieces text := by
  rw [pieces, firstPiece_newline]

/-! ## 2. Tokens further down -/

/-- A fault so many lines further down. -/
def ScanError.shift (k : Nat) (error : ScanError) : ScanError :=
  { error with line := error.line + k }

namespace Scanned

/-- What has been found, so many lines further down. -/
def shift (k : Nat) (found : Scanned) : Scanned :=
  ⟨found.tokens.map (Token.shift k), found.errors.map (ScanError.shift k), found.lastLine + k⟩

theorem ofPieces_shift (k line : Nat) (parts : List Piece) :
    ofPieces (line + k) parts = (ofPieces line parts).shift k := by
  induction parts generalizing line with
  | nil => rfl
  | cons piece rest ih =>
    have next := ih (line + piece.text.count '\n')
    rw [Nat.add_right_comm] at next
    rw [ofPieces, ofPieces, next]
    cases piece.kind with
    | token kind => simp only [shift, List.map_cons, Token.shift, Nat.add_right_comm]
    | _ => rfl

theorem ofPieces_newline (line : Nat) (rest : List Piece) :
    ofPieces line (⟨.gap, ['\n']⟩ :: rest) = ofPieces (line + 1) rest := rfl

theorem lastLine_ofPieces (line : Nat) (parts : List Piece) :
    (ofPieces line parts).lastLine = line + (parts.flatMap Piece.text).count '\n' := by
  induction parts generalizing line with
  | nil => rfl
  | cons piece rest ih =>
    rw [ofPieces, List.flatMap_cons, List.count_append, ← Nat.add_assoc, ← ih]
    cases piece.kind <;> rfl

theorem ofPieces_append (line : Nat) (parts others : List Piece) :
    ofPieces line (parts ++ others) =
      ⟨(ofPieces line parts).tokens ++ (ofPieces (ofPieces line parts).lastLine others).tokens,
        (ofPieces line parts).errors ++ (ofPieces (ofPieces line parts).lastLine others).errors,
        (ofPieces (ofPieces line parts).lastLine others).lastLine⟩ := by
  induction parts generalizing line with
  | nil => rfl
  | cons piece rest ih =>
    rw [List.cons_append, ofPieces, ofPieces, ih]
    cases piece.kind <;> rfl

/-- Where there are no faults every string is closed. -/
theorem closed_of_errors {line : Nat} {parts : List Piece} (h : (ofPieces line parts).errors = []) :
    ∀ piece ∈ parts, piece.kind ≠ .unclosed := by
  induction parts generalizing line with
  | nil =>
    intro piece hmem
    cases hmem
  | cons piece rest ih =>
    rw [ofPieces] at h
    intro other hmem
    cases hkind : piece.kind with
    | token kind | gap =>
      rw [hkind] at h
      rcases List.mem_cons.1 hmem with rfl | hmem
      · rw [hkind]
        intro h
        cases h
      · exact ih h other hmem
    | stray | unclosed =>
      rw [hkind] at h
      cases h

end Scanned

theorem scan_eq_ok {source : String} {stream : TokenStream} (h : scan source = .ok stream) :
    Scanned.ofPieces 1 (pieces source.toList) = ⟨stream.tokens, [], stream.lastLine⟩ := by
  unfold scan at h
  dsimp only at h
  split at h
  · rename_i clean
    cases h
    rw [← List.isEmpty_iff.1 clean]
  · cases h

/-- The number of newlines in a text. -/
def newlines (source : String) : Nat := source.toList.count '\n'

/-- **Two texts with a newline in between have the tokens of both**, those of the second one below
those of the first. -/
theorem scan_join {first second : String} {stream stream' : TokenStream}
    (h : scan first = .ok stream) (h' : scan second = .ok stream') :
    scan (first ++ "\n" ++ second) = .ok
      ⟨stream.tokens ++ stream'.tokens.map (Token.shift (newlines first + 1)),
        stream'.lastLine + (newlines first + 1)⟩ := by
  have found := scan_eq_ok h
  have found' := scan_eq_ok h'
  have closed := Scanned.closed_of_errors (congrArg Scanned.errors found)
  have last := Scanned.lastLine_ofPieces 1 (pieces first.toList)
  rw [flatMap_pieces, found] at last
  have text : (first ++ "\n" ++ second).toList = first.toList ++ '\n' :: second.toList := by
    simp
  have below : Scanned.ofPieces stream.lastLine (⟨.gap, ['\n']⟩ :: pieces second.toList) =
      Scanned.shift (newlines first + 1) ⟨stream'.tokens, [], stream'.lastLine⟩ := by
    dsimp only at last
    rw [← found', ← Scanned.ofPieces_shift, Scanned.ofPieces_newline, last, Nat.add_assoc]
    rfl
  unfold scan
  rw [text, pieces_append_newline _ _ closed, Scanned.ofPieces_append, found]
  dsimp only
  rw [below]
  rfl

/-- So many empty lines. -/
def blankLines (k : Nat) : String := String.ofList (List.replicate k '\n')

/-- Empty lines in front of a text move its tokens down. -/
theorem scan_blankLines {source : String} {stream : TokenStream} (h : scan source = .ok stream)
    (k : Nat) :
    scan (blankLines k ++ source) =
      .ok ⟨stream.tokens.map (Token.shift k), stream.lastLine + k⟩ := by
  have found : ∀ line, Scanned.ofPieces line (pieces (List.replicate k '\n' ++ source.toList)) =
      Scanned.ofPieces (line + k) (pieces source.toList) := by
    induction k with
    | zero => exact fun line => rfl
    | succ k ih =>
      intro line
      rw [List.replicate_succ, List.cons_append, pieces_newline, Scanned.ofPieces_newline, ih,
        Nat.add_assoc, Nat.add_comm 1 k]
  unfold scan blankLines
  rw [String.toList_append, String.toList_ofList, found, Scanned.ofPieces_shift, scan_eq_ok h]
  rfl

/-! ## 3. Programs elsewhere -/

/-- **A program that is read further down and with other ids is alike**, if the likeness allows
these ids and lines. -/
theorem parse_alike {m : Likeness} {stream stream' : TokenStream} {k : Nat}
    (tokens : stream'.tokens = stream.tokens.map (Token.shift k)) (lines : ∀ l, m.lines l (l + k))
    {lo lo' : Id} {program : List Stmt} (parsed : (parse stream lo).result = .ok program)
    (ids : ∀ i, lo ≤ i → i < (parse stream lo).nextId → m.ids i (i - lo + lo')) :
    ∃ program', parse stream' lo' = ⟨.ok program', (parse stream lo).nextId - lo + lo'⟩ ∧
      Stmt.AlikeAll m program program' := by
  have derived := declarations_of_parse parsed
  let v : Move m := {
    token := Token.shift k
    id := fun i => i - lo + lo'
    kept := 0
    rest := []
    lo := lo
    hi := (parse stream lo).nextId
    kind := fun _ => rfl
    name := fun _ _ => rfl
    lines := fun t => lines t.line
    step := fun i hi => by rw [Nat.sub_add_comm hi, Nat.add_right_comm]
    ids := ids }
  have covers : v.Covers ⟨stream.tokens, lo⟩ ⟨[], (parse stream lo).nextId⟩ :=
    ⟨Nat.le_refl _, Nat.le_refl _, Nat.zero_le _⟩
  obtain ⟨program', derived', likes⟩ := derived.move covers
  have start : v.spot ⟨stream.tokens, lo⟩ = ⟨stream'.tokens, lo'⟩ := by
    simp [v, Move.spot, Spot.size, tokens]
  rw [start, v.spot_of_size_eq rfl] at derived'
  exact ⟨program', parse_of_declarations derived', likes⟩

/-- **The programs of two token streams are the program of the two streams put together**, with ids
from where the first one ends. -/
theorem parse_append {stream stream' both : TokenStream}
    (tokens : both.tokens = stream.tokens ++ stream'.tokens) {lo mid hi : Id}
    {program program' : List Stmt} (parsed : parse stream lo = ⟨.ok program, mid⟩)
    (parsed' : parse stream' mid = ⟨.ok program', hi⟩) :
    parse both lo = ⟨.ok (program ++ program'), hi⟩ := by
  have derived := declarations_of_parse (congrArg Parsed.result parsed)
  have derived' := declarations_of_parse (congrArg Parsed.result parsed')
  rw [parsed] at derived
  rw [parsed'] at derived'
  let v : Move .same := {
    token := id
    id := id
    kept := 0
    rest := stream'.tokens
    lo := lo
    hi := mid
    kind := fun _ => rfl
    name := fun _ _ => rfl
    lines := fun _ => rfl
    step := fun _ _ => rfl
    ids := fun _ _ _ => rfl }
  have covers : v.Covers ⟨stream.tokens, lo⟩ ⟨[], mid⟩ :=
    ⟨Nat.le_refl _, Nat.le_refl _, Nat.zero_le _⟩
  obtain ⟨same, moved, likes⟩ := derived.move covers
  cases likes.eq
  have start : v.spot ⟨stream.tokens, lo⟩ = ⟨both.tokens, lo⟩ := by
    simp [v, Move.spot, Spot.size, tokens]
  rw [start, v.spot_of_size_eq rfl] at moved
  exact parse_of_declarations (moved.trans derived')

end Lox
