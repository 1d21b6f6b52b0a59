import Mathlib.Data.List.Forall2
import Scriptlet.Proofs.TokenClasses

/-!
The lexer is maximal munch. Its first piece is the one that `Munch` allows, so its pieces are the only tiling of a text
by such pieces; its items are the tokens and faults among them, in order, and one end token. `Cursor` hands the items
out one at a time.
-/
namespace Scriptlet.Token

section First

variable {c : Char} {cs text rest : List Char} {kind : Kind}

theorem length_le_takeWhile {α : Type} {p : α → Bool} {xs ys : List α} (h : xs <+: ys) (all : ∀ x ∈ xs, p x = true) :
    xs.length ≤ (ys.takeWhile p).length := by
  obtain ⟨zs, rfl⟩ := h
  rw [List.takeWhile_append_of_pos all, List.length_append]
  exact Nat.le_add_right _ _

theorem not_startsComment (h : c ≠ '/') : ¬ StartsComment (c :: cs) := by
  rintro (h' | h') <;> exact h (List.cons_prefix_cons.1 h').1.symm

theorem longest_cons (h : ∀ (kind : Kind) (t : List Char), kind.Spells (c :: t) → t <+: cs → t.length < text.length) :
    Longest text (c :: cs) := by
  intro kind other spells hp
  obtain ⟨d, t, rfl⟩ := spells.ne_nil
  obtain ⟨rfl, ht⟩ := List.cons_prefix_cons.1 hp
  exact h kind t spells ht

theorem munch_token (whole : text ++ rest = c :: cs) (comment : ¬ StartsComment (c :: cs)) (spells : kind.Spells text)
    (longest : Longest text (c :: cs)) : Munch ⟨text, .token kind⟩ rest := by
  rw [← whole] at comment longest
  exact .token comment spells longest

theorem not_mem_takeWhile_ne (d : Char) (cs : List Char) : d ∉ cs.takeWhile (· ≠ d) := by
  intro h
  have all := List.all_eq_true.1 (List.all_takeWhile (p := (· ≠ d)) (l := cs)) d h
  simp at all

theorem munch_string (hc : isQuote c = true) : Munch (stringPiece c cs).1 (stringPiece c cs).2 := by
  have whole := stringPiece_append c cs
  have comment : ¬ StartsComment (c :: cs) := not_startsComment (by rintro rfl; exact absurd hc (by decide))
  revert whole
  unfold stringPiece
  cases hd : cs.dropWhile (· ≠ c) with
  | nil => exact fun _ => .unterminated hc (not_mem_takeWhile_ne c cs)
  | cons close rest =>
    intro whole
    have stop := List.head?_dropWhile_not (· ≠ c) cs
    rw [hd] at stop
    obtain rfl : close = c := by simpa using stop
    refine munch_token whole comment (.string hc (not_mem_takeWhile_ne _ cs)) (longest_cons ?_)
    intro kind t spells ht
    obtain ⟨body, hb, rfl, -⟩ := spells.of_quote hc
    have body_le := length_le_takeWhile (p := (· ≠ close)) ((List.prefix_append _ _).trans ht)
      (by intro d hd; simpa using fun h : d = close => hb (h ▸ hd))
    simp only [List.length_append, List.length_cons, List.length_nil]
    omega

theorem spells_wordKind {ds : List Char} (hc : isNameStart c = true) (parts : ∀ d ∈ ds, isNamePart d = true) :
    (wordKind (c :: ds)).Spells (c :: ds) := by
  unfold wordKind
  cases hk : Keyword.ofText? (String.ofList (c :: ds)) with
  | none =>
    refine .identifier hc parts fun k hk' => ?_
    rw [← hk', String.ofList_toList, Keyword.ofText?_text] at hk
    cases hk
  | some k =>
    have text : k.text = String.ofList (c :: ds) := by simpa using List.find?_some hk
    have spells := Kind.Spells.keyword k
    rwa [text, String.toList_ofList] at spells

theorem munch_word (hc : isNameStart c = true) : Munch (wordPiece c cs).1 (wordPiece c cs).2 := by
  have comment : ¬ StartsComment (c :: cs) := not_startsComment (by rintro rfl; exact absurd hc (by decide))
  have spells := spells_wordKind hc (List.all_eq_true.1 (List.all_takeWhile (p := isNamePart) (l := cs)))
  refine munch_token (wordPiece_append c cs) comment spells (longest_cons ?_)
  intro kind t spells ht
  exact Nat.lt_succ_of_le (length_le_takeWhile ht (spells.of_name hc).1)

/-- Digits before a point are all digits that there are. -/
theorem takeWhile_digits {ds : List Char} (digits : ∀ d ∈ ds, isDigit d = true) (rest : List Char) :
    (ds ++ '.' :: rest).takeWhile isDigit = ds ∧ (ds ++ '.' :: rest).dropWhile isDigit = '.' :: rest := by
  have stop : isDigit '.' = false := by decide
  rw [List.takeWhile_append_of_pos digits, List.dropWhile_append_of_pos digits]
  simp [stop]

theorem longest_whole (hc : isDigit c = true)
    (point : ∀ e es, cs.dropWhile isDigit = '.' :: e :: es → isDigit e = false) :
    Longest (c :: cs.takeWhile isDigit) (c :: cs) := by
  refine longest_cons fun kind t spells ht => ?_
  rcases spells.of_digit hc with ⟨digits, -⟩ | ⟨ds, e, es, digits, fraction, rfl, -⟩
  · exact Nat.lt_succ_of_le (length_le_takeWhile ht digits)
  · obtain ⟨more, rfl⟩ := ht
    rw [List.append_assoc] at point
    have none := point e (es ++ more) (takeWhile_digits digits _).2
    rw [fraction e (.head _)] at none
    cases none

theorem munch_number (hc : isDigit c = true) : Munch (numberPiece c cs).1 (numberPiece c cs).2 := by
  have whole := numberPiece_append c cs
  have comment : ¬ StartsComment (c :: cs) := not_startsComment (by rintro rfl; exact absurd hc (by decide))
  have digits : ∀ d ∈ c :: cs.takeWhile isDigit, isDigit d = true :=
    List.forall_mem_cons.2 ⟨hc, List.all_eq_true.1 List.all_takeWhile⟩
  revert whole
  unfold numberPiece
  dsimp only
  split
  · next e es hd =>
    split
    · next he =>
      intro whole
      have fraction : ∀ d ∈ e :: es.takeWhile isDigit, isDigit d = true :=
        List.forall_mem_cons.2 ⟨he, List.all_eq_true.1 List.all_takeWhile⟩
      refine munch_token whole comment (.decimal digits fraction) (longest_cons fun kind t spells ht => ?_)
      rcases spells.of_digit hc with ⟨digits', -⟩ | ⟨ds, e', es', digits', fraction', rfl, -⟩
      · have le := length_le_takeWhile ht digits'
        simp only [List.length_append, List.length_cons]
        omega
      · obtain ⟨more, rfl⟩ := ht
        have shape : ds ++ '.' :: e' :: es' ++ more = ds ++ '.' :: (e' :: es' ++ more) := List.append_assoc _ _ _
        rw [shape, (takeWhile_digits digits' _).2, List.cons_append] at hd
        rw [shape, (takeWhile_digits digits' _).1]
        obtain ⟨rfl, rfl⟩ := List.cons.inj (List.cons.inj hd).2
        have le := length_le_takeWhile (List.prefix_append es' more) (List.forall_mem_cons.1 fraction').2
        simp only [List.length_append, List.length_cons]
        omega
    · next he =>
      intro whole
      refine munch_token whole comment (.whole digits) (longest_whole hc fun e' es' hd' => ?_)
      cases hd.symm.trans hd'
      simpa using he
  · next none =>
    exact fun whole => munch_token whole comment (.whole digits)
      (longest_whole hc fun e es hd => absurd hd (none e es))

/-- A punctuator of two characters starts with one of one character. -/
theorem ofChars?_of_chars {p : Punct} {t : List Char} (h : p.chars = c :: t) :
    (t = [] ∨ ∃ d, t = [d]) ∧ ∃ q, Punct.ofChars? [c] = some q := by
  cases p <;> cases h <;> exact ⟨by simp, _, rfl⟩

theorem chars_of_ofChars? {p : Punct} {t : List Char} (h : Punct.ofChars? t = some p) : p.chars = t := by
  simpa using List.find?_some h

theorem munch_punct (blank : isBlank c = false) (quote : isQuote c = false) (digit : isDigit c = false)
    (name : isNameStart c = false) (comment : ¬ StartsComment (c :: cs)) :
    Munch (punctPiece c cs).1 (punctPiece c cs).2 := by
  have whole := punctPiece_append c cs
  have other {kind : Kind} {t : List Char} (spells : kind.Spells (c :: t)) : ∃ p : Punct, p.chars = c :: t := by
    obtain ⟨p, hp, -⟩ := spells.of_other quote digit name
    exact ⟨p, hp⟩
  revert whole
  unfold punctPiece
  split
  · next p hp =>
    intro whole
    obtain ⟨d, hd, hp⟩ := Option.bind_eq_some_iff.1 hp
    obtain ⟨rest, rfl⟩ := List.head?_eq_some_iff.1 hd
    have spells := Kind.Spells.punct p
    rw [chars_of_ofChars? hp] at spells
    refine munch_token whole comment spells (longest_cons fun kind t spells' _ => ?_)
    obtain ⟨q, hq⟩ := other spells'
    rcases (ofChars?_of_chars hq).1 with rfl | ⟨d', rfl⟩ <;> simp
  · next none =>
    split
    · next p hp =>
      intro whole
      have spells := Kind.Spells.punct p
      rw [chars_of_ofChars? hp] at spells
      refine munch_token whole comment spells (longest_cons fun kind t spells' ht => ?_)
      obtain ⟨q, hq⟩ := other spells'
      rcases (ofChars?_of_chars hq).1 with rfl | ⟨d, rfl⟩
      · simp
      · obtain ⟨rest, rfl⟩ := ht
        have found := Punct.ofChars?_chars q
        rw [hq] at found
        simp [found] at none
    · next none' =>
      refine fun _ => .unexpected blank fun kind text spells hh => ?_
      obtain ⟨t, rfl⟩ := List.head?_eq_some_iff.1 hh
      obtain ⟨p, hp⟩ := other spells
      obtain ⟨q, hq⟩ := (ofChars?_of_chars hp).2
      rw [none'] at hq
      cases hq

theorem munch_lineComment : Munch ⟨'/' :: '/' :: cs.takeWhile (· ≠ '\n'), .blank⟩ (cs.dropWhile (· ≠ '\n')) := by
  refine .lineComment (not_mem_takeWhile_ne _ cs) fun d hd => ?_
  have stop := List.head?_dropWhile_not (· ≠ '\n') cs
  rw [Option.mem_def.1 hd] at stop
  simpa using stop

/-- A comment ends with the first close, or with the text. -/
theorem splitComment_cases (cs : List Char) :
    (∃ body, (splitComment cs).1 = body ++ ['*', '/'] ∧ ¬ ['*', '/'] <:+: body ++ ['*']) ∨
      ((splitComment cs).2 = [] ∧ (splitComment cs).1 = cs ∧ ¬ ['*', '/'] <:+: cs) := by
  fun_induction splitComment cs with
  | case1 rest => exact .inl ⟨[], rfl, by decide⟩
  | case2 c rest other body after h ih =>
    rw [h] at ih
    have first (tail : List Char) (ht : tail.head? = rest.head?) : ¬ ['*', '/'] <+: c :: tail := by
      intro hp
      obtain ⟨hc, hp⟩ := List.cons_prefix_cons.1 hp
      obtain ⟨tail, rfl⟩ := hp
      obtain ⟨rest, rfl⟩ := List.head?_eq_some_iff.1 ht.symm
      exact other rest hc.symm rfl
    have whole := splitComment_append rest
    rw [h] at whole
    rcases ih with ⟨inner, rfl, inside⟩ | ⟨rfl, rfl, inside⟩
    · refine .inl ⟨c :: inner, rfl, ?_⟩
      rw [List.cons_append, List.infix_cons_iff]
      rintro (hp | hi)
      · refine first _ ?_ hp
        rw [← whole]
        cases inner <;> rfl
      · exact inside hi
    · refine .inr ⟨rfl, rfl, ?_⟩
      rw [List.infix_cons_iff]
      rintro (hp | hi)
      · exact first _ rfl hp
      · exact inside hi
  | case3 => exact .inr ⟨rfl, rfl, by decide⟩

theorem munch_blockComment : Munch ⟨'/' :: '*' :: (splitComment cs).1, .blank⟩ (splitComment cs).2 := by
  rcases splitComment_cases cs with ⟨body, hb, inside⟩ | ⟨hr, hb, inside⟩
  · rw [hb]
    exact .blockComment inside
  · rw [hb, hr]
    exact .openComment inside

/-- The lexer takes what maximal munch takes. -/
theorem munch_firstPiece (c : Char) (cs : List Char) : Munch (firstPiece c cs).1 (firstPiece c cs).2 := by
  unfold firstPiece
  split
  · next blank => exact .blank blank
  next blank =>
  split
  · next quote => exact munch_string quote
  next quote =>
  split
  · next digit => exact munch_number digit
  next digit =>
  split
  · next name => exact munch_word name
  next name =>
  split
  · exact munch_lineComment
  · exact munch_blockComment
  · next line block =>
    simp only [Bool.not_eq_true] at blank quote digit name
    refine munch_punct blank quote digit name ?_
    rintro (⟨rest, hs⟩ | ⟨rest, hs⟩) <;> cases hs
    · exact line rest rfl rfl
    · exact block rest rfl rfl

/-- A text belongs to one class only. -/
theorem Kind.Spells.unique {kind' : Kind} (h : kind.Spells text) (h' : kind'.Spells text) : kind = kind' := by
  obtain ⟨c, cs, rfl⟩ := h.ne_nil
  rcases h.first with ⟨hc, body, -, rfl, rfl⟩ | ⟨hc, number⟩ | ⟨hc, -, rfl⟩ | ⟨⟨-, quote, digit, name⟩, p, hp, rfl⟩
  · obtain ⟨body', -, he, rfl⟩ := h'.of_quote hc
    rw [List.append_cancel_right he]
  · have point {ds rest : List Char} (digits : ∀ d ∈ ds ++ '.' :: rest, isDigit d = true) : False :=
      absurd (digits '.' (by simp)) (by decide)
    rcases number with ⟨digits, rfl⟩ | ⟨ds, e, es, digits, -, rfl, rfl⟩
    · rcases h'.of_digit hc with ⟨-, rfl⟩ | ⟨ds', e', es', -, -, rfl, -⟩
      · rfl
      · exact (point digits).elim
    · rcases h'.of_digit hc with ⟨digits', -⟩ | ⟨ds', e', es', digits', -, he, rfl⟩
      · exact (point digits').elim
      · have before := (takeWhile_digits digits (e :: es)).1
        have after := (takeWhile_digits digits (e :: es)).2
        rw [he, (takeWhile_digits digits' _).1] at before
        rw [he, (takeWhile_digits digits' _).2] at after
        rw [before, (List.cons.inj after).2]
  · exact (h'.of_name hc).2.symm
  · obtain ⟨p', hp', rfl⟩ := h'.of_other quote digit name
    have same := Punct.ofChars?_chars p
    rw [hp, ← hp', Punct.ofChars?_chars p'] at same
    rw [Option.some.inj same]

theorem splitComment_close {body : List Char} (h : ¬ ['*', '/'] <:+: body ++ ['*']) :
    splitComment (body ++ '*' :: '/' :: rest) = (body ++ ['*', '/'], rest) := by
  induction body with
  | nil => rfl
  | cons b body ih =>
    rw [List.cons_append, List.infix_cons_iff, not_or] at h
    rw [List.cons_append, splitComment_cons_of_ne, ih h.2]
    · rfl
    · intro tail he
      obtain ⟨rfl, later⟩ := List.cons.inj he
      cases body with
      | nil => cases later
      | cons b' body =>
        obtain ⟨rfl, -⟩ := List.cons.inj later
        exact h.1 ⟨body ++ ['*'], rfl⟩

theorem splitComment_open {body : List Char} (h : ¬ ['*', '/'] <:+: body) : splitComment body = (body, []) := by
  rcases splitComment_cases body with ⟨inner, hi, -⟩ | ⟨hr, hb, -⟩
  · have whole := splitComment_append body
    rw [hi] at whole
    exact absurd ⟨inner, (splitComment body).2, whole⟩ h
  · exact Prod.ext hb hr

/-- Two longest texts of a class at the start of one text are the same. -/
theorem eq_of_longest {kind' : Kind} {text' rest' : List Char} (whole : text ++ rest = text' ++ rest')
    (h : kind.Spells text) (h' : kind'.Spells text') (longest : Longest text (text ++ rest))
    (longest' : Longest text' (text' ++ rest')) : kind = kind' ∧ text = text' ∧ rest = rest' := by
  have here : text <+: text' ++ rest' := ⟨rest, whole⟩
  have there : text' <+: text ++ rest := ⟨rest', whole.symm⟩
  have length := Nat.le_antisymm (longest' kind text h here) (longest kind' text' h' there)
  obtain ⟨rfl, rfl⟩ := List.append_inj whole length
  exact ⟨h.unique h', rfl, rfl⟩

/-- A search for a character stops before it. -/
theorem takeWhile_ne {d : Char} {body : List Char} (inside : d ∉ body) (stop : ∀ x ∈ rest.head?, x = d) :
    (body ++ rest).takeWhile (· ≠ d) = body ∧ (body ++ rest).dropWhile (· ≠ d) = rest := by
  have before : ∀ x ∈ body, decide (x ≠ d) = true := by
    intro x hx
    simpa using fun h : x = d => inside (h ▸ hx)
  rw [List.takeWhile_append_of_pos before, List.dropWhile_append_of_pos before]
  cases rest with
  | nil => simp
  | cons x rest =>
    obtain rfl := stop x rfl
    simp

/-- Where a text of a class starts that is longest, the lexer takes it. -/
theorem firstPiece_token (whole : text ++ rest = c :: cs) (comment : ¬ StartsComment (c :: cs))
    (spells : kind.Spells text) (longest : Longest text (text ++ rest)) :
    firstPiece c cs = (⟨text, .token kind⟩, rest) := by
  have lexer := munch_firstPiece c cs
  have lexed := firstPiece_append c cs
  generalize firstPiece c cs = taken at lexer lexed
  obtain ⟨p, left⟩ := taken
  obtain ⟨d, t, rfl⟩ := spells.ne_nil
  obtain ⟨rfl, tail⟩ := List.cons.inj whole
  dsimp only at lexer lexed
  cases lexer with
  | blank blank =>
    cases lexed
    rw [spells.not_blank] at blank
    cases blank
  | lineComment => exact absurd (.inl (lexed ▸ ⟨_, rfl⟩)) comment
  | blockComment | openComment => exact absurd (.inr (lexed ▸ ⟨_, rfl⟩)) comment
  | token _ spells' longest' =>
    obtain ⟨rfl, rfl, rfl⟩ := eq_of_longest (lexed.trans whole.symm) spells' spells longest' longest
    rfl
  | unexpected _ none =>
    cases lexed
    exact absurd rfl (none kind _ spells)
  | unterminated quote inside =>
    rw [List.append_nil] at lexed
    cases lexed
    obtain ⟨body, -, rfl, -⟩ := spells.of_quote quote
    simp [← tail] at inside

/-- Where nothing starts, the lexer takes one character. -/
theorem firstPiece_unexpected (blank : isBlank c = false)
    (none : ∀ (kind : Kind) (text : List Char), kind.Spells text → text.head? ≠ some c) :
    firstPiece c cs = (⟨[c], .fault (.unexpected c)⟩, cs) := by
  have lexer := munch_firstPiece c cs
  have lexed := firstPiece_append c cs
  have slash : c ≠ '/' := by
    rintro rfl
    exact none _ _ (.punct .slash) rfl
  generalize firstPiece c cs = taken at lexer lexed
  obtain ⟨p, left⟩ := taken
  dsimp only at lexer lexed
  cases lexer with
  | blank blank' =>
    cases lexed
    rw [blank] at blank'
    cases blank'
  | lineComment | blockComment | openComment => exact absurd (List.cons.inj lexed).1.symm slash
  | token _ spells =>
    obtain ⟨d, t, rfl⟩ := spells.ne_nil
    exact absurd (congrArg some (List.cons.inj lexed).1) (none _ _ spells)
  | unexpected =>
    cases lexed
    rfl
  | unterminated quote =>
    cases (List.cons.inj lexed).1
    exact absurd rfl (none _ _ (.string quote List.not_mem_nil))

/-- Maximal munch takes what the lexer takes. -/
theorem Munch.eq_firstPiece {p : Piece} (h : Munch p rest) (whole : p.text ++ rest = c :: cs) :
    firstPiece c cs = (p, rest) := by
  cases h with
  | blank blank =>
    cases whole
    simp [firstPiece, blank]
  | lineComment inside stop =>
    simp only [List.cons_append, List.cons.injEq] at whole
    obtain ⟨rfl, rfl⟩ := whole
    rw [firstPiece_lineComment, (takeWhile_ne inside stop).1, (takeWhile_ne inside stop).2]
  | @blockComment body rest inside =>
    have shape : '/' :: '*' :: (body ++ ['*', '/']) ++ rest = '/' :: '*' :: (body ++ '*' :: '/' :: rest) := by simp
    obtain ⟨rfl, rfl⟩ := List.cons.inj (shape.symm.trans whole)
    rw [firstPiece_blockComment, splitComment_close inside]
  | openComment inside =>
    rw [List.append_nil] at whole
    cases whole
    rw [firstPiece_blockComment, splitComment_open inside]
  | token comment spells longest =>
    dsimp only at whole
    rw [whole] at comment
    exact firstPiece_token whole comment spells longest
  | unexpected blank none =>
    cases whole
    exact firstPiece_unexpected blank none
  | unterminated quote inside =>
    rw [List.append_nil] at whole
    cases whole
    have stop : ∀ d ∈ ([] : List Char).head?, d = c := by simp
    have split := takeWhile_ne inside stop
    rw [List.append_nil] at split
    simp only [firstPiece, (quote_exclusive quote).1, quote, stringPiece, split.1, split.2, Bool.false_eq_true, if_false,
      if_true]

theorem Munch.text_ne_nil {p : Piece} (h : Munch p rest) : ∃ c t, p.text = c :: t := by
  cases h with
  | token _ spells => exact spells.ne_nil
  | _ => exact ⟨_, _, rfl⟩

end First

/-- Pieces, each taken by maximal munch off what the ones before it leave. -/
inductive Tiles : List Char → List Piece → Prop where
  | nil : Tiles [] []
  | cons {p : Piece} {rest : List Char} {ps : List Piece} : Munch p rest → Tiles rest ps → Tiles (p.text ++ rest) (p :: ps)

/-- The pieces are the one tiling by maximal munch. -/
theorem tiles_iff {cs : List Char} {ps : List Piece} : Tiles cs ps ↔ ps = pieces cs := by
  constructor
  · intro h
    induction h with
    | nil => rw [pieces]
    | @cons p rest ps munch _ ih =>
      obtain ⟨c, t, ht⟩ := munch.text_ne_nil
      have first : firstPiece c (t ++ rest) = (p, rest) := munch.eq_firstPiece (by rw [ht]; rfl)
      rw [ht, List.cons_append, pieces, first, ← ih]
  · rintro rfl
    induction cs using pieces.induct with
    | case1 =>
      rw [pieces]
      exact .nil
    | case2 c cs ih =>
      have tiles := Tiles.cons (munch_firstPiece c cs) ih
      rwa [firstPiece_append, ← pieces] at tiles

/-- The piece that an item stands for: a token has its class and its text, a fault its cause. -/
def Piece.Shown (p : Piece) : Item → Prop
  | .token t => p.meaning = .token t.kind ∧ t.lexeme.toList = p.text
  | .fault _ f => p.meaning = .fault f

/-- The items stand for the pieces that are not blank, in order; the end token comes last. -/
theorem items_eq (line : Nat) (ps : List Piece) :
    ∃ shown, items line ps = shown ++ [.token (.eof (line + newlines (ps.flatMap Piece.text)))] ∧
      List.Forall₂ Piece.Shown (ps.filter (·.meaning ≠ .blank)) shown := by
  induction ps generalizing line with
  | nil => exact ⟨[], rfl, .nil⟩
  | cons p ps ih =>
    obtain ⟨shown, he, pairs⟩ := ih (line + newlines p.text)
    rw [List.flatMap_cons, newlines_append, ← Nat.add_assoc]
    unfold items
    cases hm : p.meaning with
    | blank =>
      rw [List.filter_cons_of_neg (by simp [hm])]
      exact ⟨shown, he, pairs⟩
    | token kind =>
      rw [List.filter_cons_of_pos (by simp [hm])]
      exact ⟨_ :: shown, congrArg _ he, .cons ⟨hm, String.toList_ofList⟩ pairs⟩
    | fault f =>
      rw [List.filter_cons_of_pos (by simp [hm])]
      exact ⟨_ :: shown, congrArg _ he, .cons hm pairs⟩

/-- A lexer at work: the text that is left, the line it starts on, and whether the end token has been handed out. -/
structure Cursor where
  rest : List Char
  line : Nat
  ended : Bool

namespace Cursor

def start (source : String) : Cursor := ⟨source.toList, 1, false⟩

/-- Hands out the next item, if there is one left. -/
def next : Cursor → Option Item × Cursor
  | ⟨[], line, ended⟩ => (if ended then none else some (.token (.eof line)), ⟨[], line, true⟩)
  | ⟨c :: cs, line, ended⟩ =>
    let (p, rest) := firstPiece c cs
    let line := line + newlines p.text
    match p.meaning with
    | .blank => next ⟨(firstPiece c cs).2, line, ended⟩
    | .token kind => (some (.token ⟨kind, String.ofList p.text, line⟩), ⟨rest, line, ended⟩)
    | .fault f => (some (.fault line f), ⟨rest, line, ended⟩)
termination_by cursor => cursor.rest.length
decreasing_by
  have := length_firstPiece_rest c cs
  simp only [List.length_cons]
  omega

/-- The answer to request number `n`. -/
def answer : Nat → Cursor → Option Item
  | 0, cursor => cursor.next.1
  | n + 1, cursor => cursor.next.2.answer n

theorem next_ended (line : Nat) : next ⟨[], line, true⟩ = (none, ⟨[], line, true⟩) := by
  rw [next]
  rfl

theorem answer_ended (n line : Nat) : answer n ⟨[], line, true⟩ = none := by
  induction n with
  | zero => rw [answer, next_ended]
  | succ n ih => rw [answer, next_ended, ih]

/-- One request gives the first item and leaves the others. -/
theorem next_items (cs : List Char) (line : Nat) :
    ∃ item later cursor, items line (pieces cs) = item :: later ∧ next ⟨cs, line, false⟩ = (some item, cursor) ∧
      ((∃ rest line', cursor = ⟨rest, line', false⟩ ∧ later = items line' (pieces rest)) ∨
        (∃ line', cursor = ⟨[], line', true⟩) ∧ later = []) := by
  induction cs using pieces.induct generalizing line with
  | case1 =>
    refine ⟨.token (.eof line), [], ⟨[], line, true⟩, ?_, ?_, .inr ⟨⟨line, rfl⟩, rfl⟩⟩
    · rw [pieces, items]
    · rw [next]
      rfl
  | case2 c cs ih =>
    rw [pieces, items, next]
    dsimp only
    cases (firstPiece c cs).1.meaning with
    | blank => exact ih _
    | token kind | fault f => exact ⟨_, _, _, rfl, rfl, .inl ⟨_, _, rfl, rfl⟩⟩

theorem answer_items (n : Nat) (cs : List Char) (line : Nat) :
    answer n ⟨cs, line, false⟩ = (items line (pieces cs))[n]? := by
  induction n generalizing cs line with
  | zero =>
    obtain ⟨item, later, cursor, hi, hn, -⟩ := next_items cs line
    rw [answer, hn, hi]
    rfl
  | succ n ih =>
    obtain ⟨item, later, cursor, hi, hn, ⟨rest, line', rfl, rfl⟩ | ⟨⟨line', rfl⟩, rfl⟩⟩ := next_items cs line
    · rw [answer, hn, hi, List.getElem?_cons_succ, ih]
    · rw [answer, hn, hi, answer_ended]
      rfl

end Cursor

/-- A source has exactly one tiling by maximal munch. Its items are the tokens and faults of that tiling, in order, and
one end token after them; a cursor hands out these items and then nothing. -/
theorem scan_maximalMunch (source : String) :
    ∃ ps shown, (∀ qs, Tiles source.toList qs ↔ qs = ps) ∧ ps.flatMap Piece.text = source.toList ∧
      List.Forall₂ Piece.Shown (ps.filter (·.meaning ≠ .blank)) shown ∧ (∀ t ∈ Item.tokens shown, t.kind ≠ .eof) ∧
      scan source = shown ++ [.token (.eof (1 + newlines source.toList))] ∧
      ∀ n, (Cursor.start source).answer n = (scan source)[n]? := by
  have whole := pieces_flatMap_text source.toList
  obtain ⟨shown, hs, pairs⟩ := items_eq 1 (pieces source.toList)
  rw [whole] at hs
  refine ⟨pieces source.toList, shown, fun qs => tiles_iff, whole, pairs, ?_, hs, fun n => Cursor.answer_items n _ _⟩
  have tokens := tokens_scan source
  rw [scan, hs, Item.tokens, List.filterMap_append] at tokens
  rw [Item.tokens, List.append_cancel_right tokens]
  exact kind_words

end Scriptlet.Token
