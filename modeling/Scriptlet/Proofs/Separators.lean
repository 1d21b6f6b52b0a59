import Mathlib
import Scriptlet.Proofs.MaximalMunch

/-!
What stands between tokens does not matter. The texts of the tokens of a source may be set apart by anything that starts
with a blank character and leaves no comment open: every token is read again from its own text. No token reaches across
a blank character, and none needs the neighbours that it had.
-/
namespace Scriptlet.Token

/-- Blank characters, closed comments, and line comments with their line breaks, in any order. -/
inductive Gap : List Char → Prop where
  | nil : Gap []
  | blank {c : Char} {rest : List Char} : isBlank c = true → Gap rest → Gap (c :: rest)
  | lineComment {body rest : List Char} : '\n' ∉ body → Gap rest → Gap ('/' :: '/' :: (body ++ '\n' :: rest))
  | blockComment {body rest : List Char} : ¬ ['*', '/'] <:+: body ++ ['*'] → Gap rest →
      Gap ('/' :: '*' :: (body ++ ['*', '/']) ++ rest)

/-- A gap that starts with a blank character. -/
def Separates (text : String) : Prop := ∃ c rest, text.toList = c :: rest ∧ isBlank c = true ∧ Gap rest

/-- The texts of tokens with separators between them; the separators are numbered from the first on. -/
def spaced (separators : Nat → String) : List Token → String
  | [] => ""
  | [t] => t.lexeme
  | t :: u :: ts => t.lexeme ++ separators 0 ++ spaced (fun n => separators (n + 1)) (u :: ts)

/-- What a token says, wherever it stands: its kind, with the value of a literal, and its text. -/
def reading (t : Token) : Kind × String := (t.kind, t.lexeme)

def Piece.reading? (p : Piece) : Option (Kind × String) :=
  match p.meaning with
  | .token kind => some (kind, String.ofList p.text)
  | _ => none

section Tokens

variable {kind : Kind} {text rest : List Char}

theorem blank_chars (p : Punct) : ∀ c ∈ p.chars, isBlank c = false := by
  have none : p.chars.any isBlank = false := by cases p <;> rfl
  simpa only [List.any_eq_false, Bool.not_eq_true] using none

/-- A token that starts with a slash starts no comment, and a blank character after it does not make it one. -/
theorem Kind.Spells.not_comment (spells : kind.Spells text) (ended : ∀ b ∈ rest.head?, isBlank b = true) :
    ¬ StartsComment (text ++ rest) := by
  obtain ⟨c, cs, rfl⟩ := spells.ne_nil
  by_cases slash : c = '/'
  · subst slash
    obtain ⟨p, hp, -⟩ := spells.of_other (by decide) (by decide) (by decide)
    have second : ∀ d, (cs ++ rest).head? = some d → d ≠ '/' ∧ d ≠ '*' := by
      intro d hd
      cases p <;> cases hp
      · rw [List.nil_append] at hd
        have blank := ended d hd
        constructor <;> rintro rfl <;> exact absurd blank (by decide)
      · cases hd
        decide
    rintro (⟨tail, comment⟩ | ⟨tail, comment⟩)
    · have slash : (cs ++ rest).head? = some '/' := congrArg List.head? (List.cons.inj comment).2.symm
      exact (second '/' slash).1 rfl
    · have star : (cs ++ rest).head? = some '*' := congrArg List.head? (List.cons.inj comment).2.symm
      exact (second '*' star).2 rfl
  · exact not_startsComment slash

/-- No text of a class goes on with a blank character behind another one. -/
theorem Kind.Spells.not_across {kind' : Kind} {b : Char} {more : List Char} (spells : kind.Spells text)
    (blank : isBlank b = true) : ¬ kind'.Spells (text ++ b :: more) := by
  intro longer
  obtain ⟨c, cs, rfl⟩ := spells.ne_nil
  have name : isNamePart b = false := by
    rw [← Bool.not_eq_true, isNamePart, Bool.or_eq_true]
    rintro (part | part)
    · rw [isBlank_of_isNameStart part] at blank
      cases blank
    · rw [isBlank_of_isDigit part] at blank
      cases blank
  have digit : isDigit b = false := (Bool.or_eq_false_iff.1 name).2
  have inside : b ∈ cs ++ b :: more := by simp
  rw [List.cons_append] at longer
  rcases longer.first with ⟨quote, body, free, whole, -⟩ | ⟨first, number⟩ | ⟨start, parts, -⟩ | ⟨-, p, hp, -⟩
  · -- the closing quote of the shorter string would stand inside of the longer one
    obtain ⟨body', -, rfl, -⟩ := spells.of_quote quote
    apply free
    have split : body' ++ c :: b :: more = body ++ [c] := by simpa using whole
    have before := congrArg List.dropLast split
    rw [List.dropLast_concat, List.dropLast_append_of_ne_nil (by simp)] at before
    rw [← before]
    simp
  · rcases number with ⟨digits, -⟩ | ⟨ds, e, es, digits, fraction, whole, -⟩
    · have mem := digits b inside
      rw [digit] at mem
      cases mem
    · rw [whole, List.mem_append, List.mem_cons] at inside
      rcases inside with mem | rfl | mem
      · rw [digits b mem] at digit
        cases digit
      · cases blank
      · rw [fraction b mem] at digit
        cases digit
  · have mem := parts b inside
    rw [name] at mem
    cases mem
  · rw [blank_chars p b (hp ▸ List.mem_cons_of_mem c inside)] at blank
    cases blank

/-- In front of a blank character, or at the end, a token is taken by maximal munch, whatever followed it before. -/
theorem Kind.Spells.munch (spells : kind.Spells text) (ended : ∀ b ∈ rest.head?, isBlank b = true) :
    Munch ⟨text, .token kind⟩ rest := by
  apply Munch.token (spells.not_comment ended) spells
  intro kind' other spells' whole
  rcases List.prefix_or_prefix_of_prefix whole (List.prefix_append text rest) with shorter | ⟨more, rfl⟩
  · exact shorter.length_le
  · cases more with
    | nil => simp
    | cons b more =>
      obtain ⟨tail, rfl⟩ := (List.prefix_append_right_inj text).1 whole
      exact absurd spells' (spells.not_across (ended b rfl))

end Tokens

section Gaps

variable {gap cs : List Char} {ps : List Piece}

/-- A gap is cut into blank pieces, and what follows is cut as if it stood alone. -/
theorem Gap.tiles (h : Gap gap) (tiles : Tiles cs ps) :
    ∃ blanks, (∀ p ∈ blanks, p.meaning = .blank) ∧ Tiles (gap ++ cs) (blanks ++ ps) := by
  induction h with
  | nil => exact ⟨[], nofun, tiles⟩
  | @blank c rest blank _ ih =>
    obtain ⟨blanks, all, rest⟩ := ih
    exact ⟨_ :: blanks, List.forall_mem_cons.2 ⟨rfl, all⟩, .cons (.blank blank) rest⟩
  | @lineComment body rest inside _ ih =>
    obtain ⟨blanks, all, tiles⟩ := ih
    have newline : Tiles ('\n' :: (rest ++ cs)) (⟨['\n'], .blank⟩ :: (blanks ++ ps)) := .cons (.blank rfl) tiles
    have comment := Tiles.cons (.lineComment inside (by simp)) newline
    refine ⟨⟨'/' :: '/' :: body, .blank⟩ :: ⟨['\n'], .blank⟩ :: blanks, ?_, by simpa using comment⟩
    exact List.forall_mem_cons.2 ⟨rfl, List.forall_mem_cons.2 ⟨rfl, all⟩⟩
  | @blockComment body rest inside _ ih =>
    obtain ⟨blanks, all, tiles⟩ := ih
    have comment := Tiles.cons (.blockComment inside) tiles
    exact ⟨_ :: blanks, List.forall_mem_cons.2 ⟨rfl, all⟩, by simpa using comment⟩

theorem reading?_blanks {blanks : List Piece} (h : ∀ p ∈ blanks, p.meaning = .blank) :
    blanks.filterMap Piece.reading? = [] := by
  rw [List.filterMap_eq_nil_iff]
  intro p hp
  rw [Piece.reading?, h p hp]

end Gaps

/-- Tokens that are set apart are cut out again. -/
theorem tiles_spaced {ts : List Token} (spells : ∀ t ∈ ts, t.kind.Spells t.lexeme.toList) {separators : Nat → String}
    (apart : ∀ n, Separates (separators n)) :
    ∃ ps, Tiles (spaced separators ts).toList ps ∧ (∀ p ∈ ps, ∀ f, p.meaning ≠ .fault f) ∧
      ps.filterMap Piece.reading? = ts.map reading := by
  induction ts generalizing separators with
  | nil => exact ⟨[], .nil, nofun, rfl⟩
  | cons t ts ih =>
    obtain ⟨first, others⟩ := List.forall_mem_cons.1 spells
    have again : Piece.reading? ⟨t.lexeme.toList, .token t.kind⟩ = some (reading t) := by
      rw [Piece.reading?, String.ofList_toList]
      rfl
    cases ts with
    | nil =>
      have munch : Munch ⟨t.lexeme.toList, .token t.kind⟩ [] := first.munch (by simp)
      have tiles := Tiles.cons munch .nil
      rw [List.append_nil] at tiles
      exact ⟨_, tiles, by simp, by simp [again]⟩
    | cons u ts =>
      obtain ⟨ps, tiles, faultless, readings⟩ := ih others fun n => apart (n + 1)
      obtain ⟨c, rest, separator, blank, gap⟩ := apart 0
      obtain ⟨blanks, all, tiles⟩ := (Gap.blank blank gap).tiles tiles
      have whole := Tiles.cons (first.munch (by simpa using blank)) tiles
      refine ⟨_, by simpa [spaced, separator] using whole, ?_, ?_⟩
      · rw [List.forall_mem_cons, List.forall_mem_append]
        refine ⟨by simp, fun p hp => ?_, faultless⟩
        simp [all p hp]
      · rw [List.filterMap_cons_some again, List.filterMap_append, reading?_blanks all, readings]
        rfl

section Words

variable {line : Nat} {ps : List Piece}

theorem items_faultless (h : ∀ p ∈ ps, ∀ f, p.meaning ≠ .fault f) :
    items line ps = (words line ps).map Item.token ++ [.token (.eof (line + newlines (ps.flatMap Piece.text)))] := by
  induction ps generalizing line with
  | nil => rfl
  | cons p ps ih =>
    obtain ⟨first, others⟩ := List.forall_mem_cons.1 h
    rw [items, words, List.flatMap_cons, newlines_append, ← Nat.add_assoc]
    cases hm : p.meaning with
    | blank => exact ih others
    | token kind => exact congrArg _ (ih others)
    | fault f => exact absurd hm (first f)

theorem reading_words : (words line ps).map reading = ps.filterMap Piece.reading? := by
  induction ps generalizing line with
  | nil => rfl
  | cons p ps ih =>
    rw [words, List.filterMap_cons, Piece.reading?]
    cases p.meaning with
    | blank => exact ih
    | token kind => exact congrArg _ ih
    | fault f => exact ih

theorem spells_words {cs : List Char} : ∀ t ∈ words line (pieces cs), t.kind.Spells t.lexeme.toList := by
  induction cs using pieces.induct generalizing line with
  | case1 => simp [pieces, words]
  | case2 c cs ih =>
    have munch := munch_firstPiece c cs
    rw [pieces, words]
    generalize firstPiece c cs = first at munch ih ⊢
    obtain ⟨p, rest⟩ := first
    cases munch with
    | token _ spells _ =>
      rw [List.forall_mem_cons]
      refine ⟨?_, ih⟩
      rw [String.toList_ofList]
      exact spells
    | _ => exact ih

end Words

/-- The tokens of a source that has no faults, set apart by any separators, make up a source that has no faults either,
and has the same kinds, values and texts of tokens, and one end token behind them. -/
theorem rescan_stable {source : String} (clean : Item.faults (scan source) = []) {separators : Nat → String}
    (apart : ∀ n, Separates (separators n)) :
    ∃ (words words' : List Token) (line line' : Nat), scan source = words.map Item.token ++ [.token (.eof line)] ∧
      scan (spaced separators words) = words'.map Item.token ++ [.token (.eof line')] ∧
      words'.map reading = words.map reading ∧ ∀ t ∈ words, t.kind ≠ .eof := by
  have faultless := (faults_items 1 _).1 clean
  have spells : ∀ t ∈ wordsOf source, t.kind.Spells t.lexeme.toList := spells_words
  obtain ⟨ps, tiles, faultless', readings⟩ := tiles_spaced spells apart
  have again : scan (spaced separators (wordsOf source)) = items 1 ps := by
    rw [tiles_iff.1 tiles]
    rfl
  rw [items_faultless faultless'] at again
  exact ⟨wordsOf source, Token.words 1 ps, _, _, items_faultless faultless, again, reading_words.trans readings,
    kind_words⟩

/-- A text whose tokens touch each other wherever they can. -/
def denseText : String := "a+++b.c/2.5=='//'"

/-- Comments that hold what would close others, and line breaks. -/
def denseGaps (n : Nat) : String := if n % 2 = 0 then " /* // ** */" else "\n// /*\n\t"

theorem separates_denseGaps (n : Nat) : Separates (denseGaps n) := by
  unfold denseGaps
  split
  · refine ⟨' ', _, rfl, by decide, ?_⟩
    exact @Gap.blockComment [' ', '/', '/', ' ', '*', '*', ' '] [] (by decide) .nil
  · refine ⟨'\n', _, rfl, by decide, ?_⟩
    exact @Gap.lineComment [' ', '/', '*'] ['\t'] (by decide) (.blank (by decide) .nil)

theorem rescan_stable_dense :
    Item.faults (scan denseText) = [] ∧ (∀ n, Separates (denseGaps n)) ∧
      ∃ (words words' : List Token) (line line' : Nat),
        scan denseText = words.map Item.token ++ [.token (.eof line)] ∧
        scan (spaced denseGaps words) = words'.map Item.token ++ [.token (.eof line')] ∧
        words'.map reading = words.map reading ∧ ∀ t ∈ words, t.kind ≠ .eof :=
  have clean : Item.faults (scan denseText) = [] := by cbv
  ⟨clean, separates_denseGaps, rescan_stable clean separates_denseGaps⟩

end Scriptlet.Token
