import Scriptlet.Proofs.Relabel
import Scriptlet.Token.Lexer

/-!
Cutting a text that is put together from two texts with a line break between them. If the first has no unterminated
string and does not end inside a comment, the pieces are those of the first, the line break, and those of the second;
the tokens are those of the first and, some lines further down, those of the second.
-/
namespace Scriptlet.Token

/-- A comment that nothing closes. -/
def Piece.openComment : Piece → Bool
  | ⟨'/' :: '*' :: body, .blank⟩ => !(List.isSuffixOf ['*', '/'] body)
  | _ => false

/-- The text ends inside a comment that nothing closes. -/
def endsInComment (source : String) : Bool := (pieces source.toList).getLast?.any Piece.openComment

section Lists

variable {α : Type} {p : α → Bool} {b : α}

theorem takeWhile_stop (hb : p b = false) (xs ys : List α) : (xs ++ b :: ys).takeWhile p = xs.takeWhile p := by
  induction xs with
  | nil => simp [hb]
  | cons x xs ih => simp only [List.cons_append, List.takeWhile_cons, ih]

theorem dropWhile_stop (hb : p b = false) (xs ys : List α) :
    (xs ++ b :: ys).dropWhile p = xs.dropWhile p ++ b :: ys := by
  induction xs with
  | nil => simp [hb]
  | cons x xs ih =>
    simp only [List.cons_append, List.dropWhile_cons, ih]
    split <;> rfl

/-- Where the search has stopped already, more text changes nothing. -/
theorem takeWhile_append_stopped {xs rest : List α} {a : α} (h : xs.dropWhile p = a :: rest) (ys : List α) :
    (xs ++ ys).takeWhile p = xs.takeWhile p ∧ (xs ++ ys).dropWhile p = a :: rest ++ ys := by
  induction xs with
  | nil => cases h
  | cons x xs ih =>
    simp only [List.cons_append, List.takeWhile_cons, List.dropWhile_cons] at h ⊢
    split
    · next hx =>
      rw [if_pos hx] at h
      obtain ⟨take, drop⟩ := ih h
      exact ⟨congrArg _ take, drop⟩
    · next hx =>
      rw [if_neg hx] at h
      cases h
      exact ⟨rfl, rfl⟩

end Lists

section Pieces

variable {c : Char} {cs ds : List Char}

theorem splitComment_cons_of_ne {c : Char} {cs : List Char} (h : ∀ rest, c :: cs ≠ '*' :: '/' :: rest) :
    splitComment (c :: cs) = (c :: (splitComment cs).1, (splitComment cs).2) := by
  rw [splitComment.eq_def]
  split
  · next rest heq => exact absurd heq (h rest)
  · next heq =>
    cases heq
    rfl
  · next heq => cases heq

/-- Either the comment is closed, and then more text changes nothing, or it takes all of the text. -/
theorem splitComment_seam (cs : List Char) :
    (['*', '/'] <:+ (splitComment cs).1 ∧
      ∀ more, splitComment (cs ++ more) = ((splitComment cs).1, (splitComment cs).2 ++ more)) ∨
    (¬ ['*', '/'] <:+ (splitComment cs).1 ∧ (splitComment cs).2 = []) := by
  induction cs with
  | nil => exact .inr ⟨by simp [splitComment], rfl⟩
  | cons c cs ih =>
    by_cases close : ∃ rest, c :: cs = '*' :: '/' :: rest
    · obtain ⟨rest, he⟩ := close
      rw [he]
      exact .inl ⟨List.suffix_rfl, fun _ => rfl⟩
    · have ne : ∀ rest, c :: cs ≠ '*' :: '/' :: rest := fun rest he => close ⟨rest, he⟩
      rw [splitComment_cons_of_ne ne]
      rcases ih with ⟨closed, more⟩ | ⟨opened, rest⟩
      · refine .inl ⟨closed.trans (List.suffix_cons _ _), fun ds => ?_⟩
        rw [List.cons_append, splitComment_cons_of_ne, more ds]
        cases cs with
        | nil => simp [splitComment] at closed
        | cons c' cs =>
          intro rest he
          cases he
          exact ne cs rfl
      · refine .inr ⟨fun suffix => ?_, rest⟩
        rcases List.suffix_cons_iff.1 suffix with he | suffix
        · have whole := splitComment_append cs
          rw [rest, List.append_nil] at whole
          rw [whole] at he
          exact ne [] he.symm
        · exact opened suffix

/-- No punctuator goes on with a line break. -/
theorem ofChars?_newline (c : Char) : Punct.ofChars? [c, '\n'] = none := by
  rw [Punct.ofChars?, List.find?_eq_none]
  intro p _
  cases p <;> simp [Punct.chars]

theorem punctPiece_seam (c : Char) (cs ds : List Char) :
    punctPiece c (cs ++ '\n' :: ds) = ((punctPiece c cs).1, (punctPiece c cs).2 ++ '\n' :: ds) := by
  cases cs with
  | nil =>
    simp only [punctPiece, List.nil_append, List.head?_cons, Option.bind_some, ofChars?_newline, List.head?_nil,
      Option.bind_none]
    split <;> rfl
  | cons d cs =>
    simp only [punctPiece, List.cons_append, List.head?_cons, Option.bind_some]
    split
    · rfl
    · split <;> rfl

theorem wordPiece_seam (c : Char) (cs ds : List Char) :
    wordPiece c (cs ++ '\n' :: ds) = ((wordPiece c cs).1, (wordPiece c cs).2 ++ '\n' :: ds) := by
  have stop : isNamePart '\n' = false := by decide
  simp only [wordPiece, takeWhile_stop stop, dropWhile_stop stop]

theorem numberPiece_seam (c : Char) (cs ds : List Char) :
    numberPiece c (cs ++ '\n' :: ds) = ((numberPiece c cs).1, (numberPiece c cs).2 ++ '\n' :: ds) := by
  have stop : isDigit '\n' = false := by decide
  unfold numberPiece
  simp only [takeWhile_stop stop, dropWhile_stop stop]
  rcases hd : cs.dropWhile isDigit with _ | ⟨a, _ | ⟨d, rest⟩⟩
  · rfl
  · by_cases ha : a = '.'
    · subst ha
      rfl
    · simp only [List.cons_append, List.nil_append]
      split <;> simp_all
  · by_cases ha : a = '.'
    · subst ha
      by_cases hd : isDigit d = true
      · simp [hd, takeWhile_stop stop, dropWhile_stop stop]
      · simp [hd]
    · simp only [List.cons_append]
      split <;> simp_all

theorem stringPiece_seam (quote : Char) (cs ds : List Char)
    (h : (stringPiece quote cs).1.meaning ≠ .fault .unterminatedString) :
    stringPiece quote (cs ++ '\n' :: ds) = ((stringPiece quote cs).1, (stringPiece quote cs).2 ++ '\n' :: ds) := by
  unfold stringPiece at h ⊢
  dsimp only at h ⊢
  cases hd : cs.dropWhile (· ≠ quote) with
  | nil =>
    rw [hd] at h
    exact absurd rfl h
  | cons close rest =>
    obtain ⟨take, drop⟩ := takeWhile_append_stopped hd ('\n' :: ds)
    rw [take, drop]
    rfl

theorem firstPiece_lineComment (rest : List Char) :
    firstPiece '/' ('/' :: rest) =
      (⟨'/' :: '/' :: rest.takeWhile (· ≠ '\n'), .blank⟩, rest.dropWhile (· ≠ '\n')) := rfl

theorem firstPiece_blockComment (rest : List Char) :
    firstPiece '/' ('*' :: rest) = (⟨'/' :: '*' :: (splitComment rest).1, .blank⟩, (splitComment rest).2) := rfl

/-- Whatever starts neither a blank, a word, a literal nor a comment is a punctuator or unexpected. -/
theorem firstPiece_punct (blank : isBlank c = false) (quote : isQuote c = false) (digit : isDigit c = false)
    (name : isNameStart c = false) (line : ¬ (c = '/' ∧ cs.head? = some '/')) (block : ¬ (c = '/' ∧ cs.head? = some '*')) :
    firstPiece c cs = punctPiece c cs := by
  simp only [firstPiece, blank, quote, digit, name, Bool.false_eq_true, if_false]
  split
  · exact absurd ⟨rfl, rfl⟩ line
  · exact absurd ⟨rfl, rfl⟩ block
  · rfl

/-- More text after a line break leaves the first piece as it is, unless it is a string or a comment that is still
open; such a one takes all of the text. -/
theorem firstPiece_seam (string : (firstPiece c cs).1.meaning ≠ .fault .unterminatedString) :
    ((firstPiece c cs).1.openComment = true ∧ (firstPiece c cs).2 = []) ∨
      ∀ ds, firstPiece c (cs ++ '\n' :: ds) = ((firstPiece c cs).1, (firstPiece c cs).2 ++ '\n' :: ds) := by
  by_cases blank : isBlank c = true
  · exact .inr fun ds => by simp only [firstPiece, blank, if_true]
  by_cases quote : isQuote c = true
  · simp only [firstPiece, blank, quote, Bool.false_eq_true, if_false, if_true] at string ⊢
    exact .inr fun ds => stringPiece_seam c cs ds string
  by_cases digit : isDigit c = true
  · simp only [firstPiece, blank, quote, digit, Bool.false_eq_true, if_false, if_true]
    exact .inr fun ds => numberPiece_seam c cs ds
  by_cases name : isNameStart c = true
  · simp only [firstPiece, blank, quote, digit, name, Bool.false_eq_true, if_false, if_true]
    exact .inr fun ds => wordPiece_seam c cs ds
  by_cases line : c = '/' ∧ cs.head? = some '/'
  · obtain ⟨rfl, hs⟩ := line
    obtain ⟨rest, rfl⟩ := List.head?_eq_some_iff.1 hs
    refine .inr fun ds => ?_
    have stop : decide ('\n' ≠ '\n') = false := by decide
    rw [List.cons_append, firstPiece_lineComment, firstPiece_lineComment, takeWhile_stop (p := (· ≠ '\n')) stop,
      dropWhile_stop (p := (· ≠ '\n')) stop]
  by_cases block : c = '/' ∧ cs.head? = some '*'
  · obtain ⟨rfl, hs⟩ := block
    obtain ⟨rest, rfl⟩ := List.head?_eq_some_iff.1 hs
    rw [firstPiece_blockComment]
    rcases splitComment_seam rest with ⟨-, more⟩ | ⟨opened, all⟩
    · refine .inr fun ds => ?_
      rw [List.cons_append, firstPiece_blockComment, more]
    · refine .inl ⟨?_, all⟩
      rw [Piece.openComment, Bool.not_eq_true', ← Bool.not_eq_true, List.isSuffixOf_iff_suffix]
      exact opened
  · refine .inr fun ds => ?_
    simp only [Bool.not_eq_true] at blank quote digit name
    have later : ∀ d, d ≠ '\n' → ¬ (c = '/' ∧ cs.head? = some d) → ¬ (c = '/' ∧ (cs ++ '\n' :: ds).head? = some d) := by
      rintro d hd h ⟨hc, hs⟩
      cases cs with
      | nil => exact hd (Option.some.inj hs).symm
      | cons c' cs => exact h ⟨hc, hs⟩
    rw [firstPiece_punct blank quote digit name line block, firstPiece_punct blank quote digit name
      (later '/' (by decide) line) (later '*' (by decide) block)]
    exact punctPiece_seam c cs ds

end Pieces

/-- The pieces of two texts with a line break between them. -/
theorem pieces_seam {cs : List Char} (ds : List Char)
    (string : ∀ p ∈ pieces cs, p.meaning ≠ .fault .unterminatedString)
    (comment : (pieces cs).getLast?.any Piece.openComment = false) :
    pieces (cs ++ '\n' :: ds) = pieces cs ++ ⟨['\n'], .blank⟩ :: pieces ds := by
  induction cs using pieces.induct with
  | case1 =>
    rw [List.nil_append, pieces]
    simp [pieces, firstPiece, isBlank]
  | case2 c cs ih =>
    rw [pieces] at string comment
    obtain ⟨first, others⟩ := List.forall_mem_cons.1 string
    rcases firstPiece_seam first with ⟨opened, all⟩ | more
    · rw [all, pieces] at comment
      simp [opened] at comment
    · have comment : (pieces (firstPiece c cs).2).getLast?.any Piece.openComment = false := by
        cases hp : pieces (firstPiece c cs).2 with
        | nil => rfl
        | cons p ps => rwa [hp, List.getLast?_cons_cons] at comment
      rw [List.cons_append, pieces, more, pieces, List.cons_append, ih others comment]

/-- The tokens of pieces that start on a line, without an end token. -/
def words (line : Nat) : List Piece → List Token
  | [] => []
  | p :: ps =>
    match p.meaning with
    | .token kind => ⟨kind, String.ofList p.text, line + newlines p.text⟩ :: words (line + newlines p.text) ps
    | _ => words (line + newlines p.text) ps

theorem newlines_append (cs ds : List Char) : newlines (cs ++ ds) = newlines cs + newlines ds := List.count_append

section Words

variable (line : Nat) (ps qs : List Piece)

theorem tokens_items :
    Item.tokens (items line ps) = words line ps ++ [.eof (line + newlines (ps.flatMap Piece.text))] := by
  induction ps generalizing line with
  | nil => rfl
  | cons p ps ih =>
    rw [items, words, List.flatMap_cons, newlines_append, ← Nat.add_assoc]
    cases p.meaning with
    | blank => exact ih _
    | token kind => exact congrArg _ (ih _)
    | fault f => exact ih _

theorem words_append :
    words line (ps ++ qs) = words line ps ++ words (line + newlines (ps.flatMap Piece.text)) qs := by
  induction ps generalizing line with
  | nil => rfl
  | cons p ps ih =>
    rw [List.cons_append, words, words, ih, List.flatMap_cons, newlines_append, ← Nat.add_assoc]
    split <;> rfl

/-- Further down the tokens are the same, on later lines. -/
theorem words_shift (numbers lines : Nat) :
    words (line + lines) ps = (words line ps).map (Relabeling.shift numbers lines).token := by
  induction ps generalizing line with
  | nil => rfl
  | cons p ps ih =>
    have here : line + lines + newlines p.text = line + newlines p.text + lines := by omega
    rw [words, words, here, ih]
    split <;> rfl

theorem faults_items : Item.faults (items line ps) = [] ↔ ∀ p ∈ ps, ∀ f, p.meaning ≠ .fault f := by
  induction ps generalizing line with
  | nil => simp [items, Item.faults, Item.fault?]
  | cons p ps ih =>
    rw [items, List.forall_mem_cons, ← ih (line + newlines p.text)]
    split
    · next h => simp [h]
    · next h => simp [h, Item.faults, Item.fault?]
    · next h => simp [h, Item.faults, Item.fault?]

end Words

/-- No piece is an end token. -/
theorem firstPiece_ne_eof (c : Char) (cs : List Char) : (firstPiece c cs).1.meaning ≠ .token .eof := by
  have word (text : List Char) : wordKind text ≠ .eof := by
    unfold wordKind
    split <;> simp
  unfold firstPiece stringPiece numberPiece wordPiece punctPiece
  repeat' split
  all_goals simp [word]

theorem kind_words {cs : List Char} {line : Nat} : ∀ t ∈ words line (pieces cs), t.kind ≠ .eof := by
  induction cs using pieces.induct generalizing line with
  | case1 => simp [pieces, words]
  | case2 c cs ih =>
    rw [pieces, words]
    split
    · next kind h =>
      refine List.forall_mem_cons.2 ⟨fun he => firstPiece_ne_eof c cs ?_, ih⟩
      rw [h]
      exact congrArg _ he
    · exact ih

/-- The tokens of a source, without the end token. -/
def wordsOf (source : String) : List Token := words 1 (pieces source.toList)

theorem tokens_scan (source : String) :
    Item.tokens (scan source) = wordsOf source ++ [.eof (1 + newlines source.toList)] := by
  rw [scan, tokens_items, pieces_flatMap_text]
  rfl

/-- Two texts with a line break between them are free of faults together if they are so alone, and have the tokens of
the first and, on later lines, those of the second. -/
theorem scan_seam {first second : String} (faultless : Item.faults (scan first) = [])
    (faultless' : Item.faults (scan second) = []) (comment : endsInComment first = false) (numbers : Nat) :
    Item.faults (scan (first ++ "\n" ++ second)) = [] ∧
      wordsOf (first ++ "\n" ++ second) =
        wordsOf first ++ (wordsOf second).map (Relabeling.shift numbers (newlines first.toList + 1)).token := by
  rw [scan, faults_items] at faultless faultless'
  have text : (first ++ "\n" ++ second).toList = first.toList ++ '\n' :: second.toList := by simp
  have cut := pieces_seam second.toList (fun p hp => faultless p hp _) comment
  rw [scan, faults_items, wordsOf, text, cut]
  constructor
  · intro p hp
    rcases List.mem_append.1 hp with hp | hp
    · exact faultless p hp
    · rcases List.mem_cons.1 hp with rfl | hp
      · simp
      · exact faultless' p hp
  · have line : newlines ['\n'] = 1 := by decide
    rw [words_append, pieces_flatMap_text, words, line, Nat.add_assoc, words_shift 1 _ numbers]
    rfl

end Scriptlet.Token
