import Mathlib
import Scriptlet.Proofs.MaximalMunch

/-!
Line numbers. The line of an item is one more than the number of line breaks before the place at which the lexer stands
when it hands the item out, whatever it has passed on the way. So a text that follows a line break has the items that
it has alone, on later lines.
-/
namespace Scriptlet

namespace Item

def line : Item → Nat
  | .token t => t.line
  | .fault line _ => line

/-- Where the lexer stands when it hands out an item, between the text before that place and the rest: behind a token
or an unexpected character; at the end of the text after an unterminated string and for the end token. -/
def EndsAt (before rest : List Char) : Item → Prop
  | .token ⟨.eof, _, _⟩ => rest = []
  | .token t => t.lexeme.toList <:+ before
  | .fault _ (.unexpected c) => [c] <:+ before
  | .fault _ .unterminatedString => rest = []

/-- The same item some lines further down. -/
def later (lines : Nat) : Item → Item
  | .token t => .token { t with line := t.line + lines }
  | .fault line f => .fault (line + lines) f

theorem EndsAt.append {before rest : List Char} {item : Item} (h : item.EndsAt before rest) (more : List Char) :
    item.EndsAt (more ++ before) rest := by
  unfold EndsAt at h ⊢
  split at h
  · exact h
  · exact h.trans (List.suffix_append more before)
  · exact h.trans (List.suffix_append more before)
  · exact h

end Item

namespace Token

section First

variable {c : Char} {cs : List Char}

/-- A piece that is no blank ends where its item says. -/
theorem endsAt_token {kind : Kind} (h : (firstPiece c cs).1.meaning = .token kind) (line : Nat) :
    (Item.token ⟨kind, String.ofList (firstPiece c cs).1.text, line⟩).EndsAt (firstPiece c cs).1.text
      (firstPiece c cs).2 := by
  unfold Item.EndsAt
  split
  · next he =>
    cases he
    exact absurd h (firstPiece_ne_eof c cs)
  · next he =>
    cases he
    exact ⟨[], String.toList_ofList⟩
  · next he => cases he
  · next he => cases he

theorem endsAt_fault {f : Fault} (h : (firstPiece c cs).1.meaning = .fault f) (line : Nat) :
    (Item.fault line f).EndsAt (firstPiece c cs).1.text (firstPiece c cs).2 := by
  have munch := munch_firstPiece c cs
  generalize (firstPiece c cs).1 = p at munch h
  generalize (firstPiece c cs).2 = rest at munch
  cases munch with
  | unexpected =>
    cases h
    exact List.suffix_rfl
  | unterminated =>
    cases h
    exact rfl
  | _ => cases h

end First

namespace Cursor

/-- The cursor after `n` requests. -/
def after : Nat → Cursor → Cursor
  | 0, cursor => cursor
  | n + 1, cursor => cursor.next.2.after n

/-- One request: the item lies at the end of the text that the cursor passes, and its line is that of the line breaks
in this text. -/
theorem next_passes (cs : List Char) (line : Nat) :
    ∃ item passed cursor, next ⟨cs, line, false⟩ = (some item, cursor) ∧ cs = passed ++ cursor.rest ∧
      cursor.line = line + newlines passed ∧ item.line = cursor.line ∧ item.EndsAt passed cursor.rest ∧
      (cursor.ended = true → cursor.rest = []) := by
  induction cs using pieces.induct generalizing line with
  | case1 =>
    refine ⟨.token (.eof line), [], ⟨[], line, true⟩, ?_, rfl, rfl, rfl, rfl, fun _ => rfl⟩
    rw [next]
    rfl
  | case2 c cs ih =>
    have whole := (firstPiece_append c cs).symm
    rw [next]
    dsimp only
    cases hm : (firstPiece c cs).1.meaning with
    | blank =>
      -- A blank is passed together with the item behind it.
      obtain ⟨item, passed, cursor, hn, rest, lines, same, ends, last⟩ := ih (line + newlines (firstPiece c cs).1.text)
      refine ⟨item, (firstPiece c cs).1.text ++ passed, cursor, hn, ?_, ?_, same, ends.append _, last⟩
      · rw [List.append_assoc, ← rest]
        exact whole
      · rw [lines, newlines_append, Nat.add_assoc]
    | token kind => exact ⟨_, _, _, rfl, whole, rfl, rfl, endsAt_token hm _, fun h => absurd h Bool.false_ne_true⟩
    | fault f => exact ⟨_, _, _, rfl, whole, rfl, rfl, endsAt_fault hm _, fun h => absurd h Bool.false_ne_true⟩

/-- Any number of requests. -/
theorem answer_passes {n : Nat} {cs : List Char} {line : Nat} {item : Item}
    (h : answer n ⟨cs, line, false⟩ = some item) :
    ∃ passed, cs = passed ++ (after (n + 1) ⟨cs, line, false⟩).rest ∧
      item.EndsAt passed (after (n + 1) ⟨cs, line, false⟩).rest ∧ item.line = line + newlines passed := by
  induction n generalizing cs line with
  | zero =>
    obtain ⟨item', passed, cursor, hn, rest, lines, same, ends, -⟩ := next_passes cs line
    rw [answer, hn] at h
    cases h
    rw [after, after, hn]
    exact ⟨passed, rest, ends, same.trans lines⟩
  | succ n ih =>
    obtain ⟨item', passed, ⟨cs', line', ended⟩, hn, rest, lines, -, -, last⟩ := next_passes cs line
    rw [answer, hn] at h
    rw [after, hn]
    dsimp only at rest lines last h
    cases ended with
    | true =>
      rw [last rfl, answer_ended] at h
      cases h
    | false =>
      obtain ⟨passed', rest', ends, lines'⟩ := ih h
      refine ⟨passed ++ passed', ?_, ends.append passed, ?_⟩
      · rw [List.append_assoc, ← rest']
        exact rest
      · rw [lines', lines, newlines_append, Nat.add_assoc]

end Cursor

section Items

variable (line : Nat) (ps qs : List Piece)

theorem line_le_of_mem_items : ∀ item ∈ items line ps, line ≤ item.line := by
  induction ps generalizing line with
  | nil => simp [items, Item.line, eof]
  | cons p ps ih =>
    have later : ∀ item ∈ items (line + newlines p.text) ps, line ≤ item.line := fun item hi =>
      Nat.le_trans (Nat.le_add_right _ _) (ih _ item hi)
    rw [items]
    split
    · exact later
    · exact List.forall_mem_cons.2 ⟨Nat.le_add_right _ _, later⟩
    · exact List.forall_mem_cons.2 ⟨Nat.le_add_right _ _, later⟩

theorem lines_items_pairwise : ((items line ps).map Item.line).Pairwise (· ≤ ·) := by
  induction ps generalizing line with
  | nil => simp [items]
  | cons p ps ih =>
    have first := line_le_of_mem_items (line + newlines p.text) ps
    rw [items]
    split
    · exact ih _
    · exact List.pairwise_cons.2 ⟨List.forall_mem_map.2 first, ih _⟩
    · exact List.pairwise_cons.2 ⟨List.forall_mem_map.2 first, ih _⟩

theorem items_later (lines : Nat) : items (line + lines) ps = (items line ps).map (Item.later lines) := by
  induction ps generalizing line with
  | nil => rfl
  | cons p ps ih =>
    have here : line + lines + newlines p.text = line + newlines p.text + lines := by omega
    rw [items, items, here, ih]
    split <;> rfl

/-- Pieces put together give the items of the first, without the end token, and then those of the second. -/
theorem items_append : ∃ shown,
    items line ps = shown ++ [.token (.eof (line + newlines (ps.flatMap Piece.text)))] ∧
      items line (ps ++ qs) = shown ++ items (line + newlines (ps.flatMap Piece.text)) qs := by
  induction ps generalizing line with
  | nil => exact ⟨[], rfl, rfl⟩
  | cons p ps ih =>
    obtain ⟨shown, alone, together⟩ := ih (line + newlines p.text)
    rw [List.cons_append, items, items, List.flatMap_cons, newlines_append, ← Nat.add_assoc, alone, together]
    split
    · exact ⟨shown, rfl, rfl⟩
    · exact ⟨_ :: shown, rfl, rfl⟩
    · exact ⟨_ :: shown, rfl, rfl⟩

theorem fault_mem_items {f : Fault} (h : ∃ p ∈ ps, p.meaning = .fault f) : ∃ line', .fault line' f ∈ items line ps := by
  obtain ⟨p, hp, hm⟩ := h
  induction ps generalizing line with
  | nil => cases hp
  | cons q ps ih =>
    rw [items]
    rcases List.mem_cons.1 hp with rfl | hp
    · rw [hm]
      exact ⟨_, .head _⟩
    · obtain ⟨line', mem⟩ := ih (line + newlines q.text) hp
      split
      · exact ⟨line', mem⟩
      · exact ⟨line', .tail _ mem⟩
      · exact ⟨line', .tail _ mem⟩

end Items

/-- The item of number `n` and where the lexer stands when it hands it out. -/
theorem item_line {source : String} {n : Nat} {item : Item} (h : (scan source)[n]? = some item) :
    (Cursor.start source).answer n = some item ∧
      ∃ before, source.toList = before ++ ((Cursor.start source).after (n + 1)).rest ∧
        item.EndsAt before ((Cursor.start source).after (n + 1)).rest ∧ item.line = 1 + newlines before := by
  have answered : (Cursor.start source).answer n = some item := (Cursor.answer_items n _ _).trans h
  exact ⟨answered, Cursor.answer_passes answered⟩

/-- Blank lines, comments, a string over two lines, a character that nothing starts with, and a string that nothing
closes. -/
def winding : String := "a\r\n\n/* \n */ 'x\ny' // z\n#\n\"q\n"

/-- A text that does not end inside a string or a comment, a line break and any other text: the items are those of the
first without its end token, and those of the second, all on lines further down. -/
theorem scan_line_break {first : String} (string : ∀ line, .fault line .unterminatedString ∉ scan first)
    (comment : endsInComment first = false) (second : String) :
    ∃ shown, scan first = shown ++ [.token (.eof (1 + newlines first.toList))] ∧
      scan (first ++ "\n" ++ second) = shown ++ (scan second).map (Item.later (1 + newlines first.toList)) := by
  have text : (first ++ "\n" ++ second).toList = first.toList ++ '\n' :: second.toList := by simp
  have closed : ∀ p ∈ pieces first.toList, p.meaning ≠ .fault .unterminatedString := by
    intro p hp hm
    obtain ⟨line, mem⟩ := fault_mem_items 1 _ ⟨p, hp, hm⟩
    exact string line mem
  obtain ⟨shown, alone, together⟩ := items_append 1 (pieces first.toList) (⟨['\n'], .blank⟩ :: pieces second.toList)
  rw [pieces_flatMap_text] at alone together
  refine ⟨shown, alone, ?_⟩
  have line : 1 + newlines first.toList + newlines ['\n'] = 1 + (1 + newlines first.toList) := by
    have : newlines ['\n'] = 1 := by decide
    omega
  rw [scan, text, pieces_seam _ closed comment, together, items, line, items_later]
  rfl

/-- A text with an unexpected character that ends in a comment, which a line break closes. -/
def commented : String := "a = #\n1. // /*"

theorem scan_commented : scan commented =
    [.token ⟨.identifier, "a", 1⟩, .token (.ofPunct .equal 1), .fault 1 (.unexpected '#'),
      .token ⟨.number (numberValue ['1'] []), "1", 2⟩, .token (.ofPunct .dot 2), .token (.eof 2)] := by
  cbv

theorem scan_line_break_commented :
    (∀ line, .fault line .unterminatedString ∉ scan commented) ∧ endsInComment commented = false ∧
      ∃ shown, scan commented = shown ++ [.token (.eof (1 + newlines commented.toList))] ∧
        scan (commented ++ "\n" ++ "5 '\n") =
          shown ++ (scan "5 '\n").map (Item.later (1 + newlines commented.toList)) :=
  have string : ∀ line, .fault line .unterminatedString ∉ scan commented := by simp [scan_commented]
  have comment : endsInComment commented = false := by cbv
  ⟨string, comment, scan_line_break string comment _⟩

end Token

end Scriptlet
