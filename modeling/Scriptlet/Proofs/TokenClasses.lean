import Scriptlet.Proofs.LexerSeam

/-!
The lexical grammar. `Kind.Spells` lists the texts of each class of tokens, and `Munch` says which piece maximal munch
takes off a text: blanks and comments first, else the longest text of any class, and an error only where nothing
starts. The lexer's first piece is the only one that `Munch` allows.
-/
namespace Scriptlet

theorem Punct.ofChars?_chars (p : Punct) : Punct.ofChars? p.chars = some p := by
  cases p <;> decide

theorem Keyword.ofText?_text (k : Keyword) : Keyword.ofText? k.text = some k := by
  cases k <;> decide

namespace Token

/-- The texts of each class of tokens. -/
inductive Kind.Spells : Kind → List Char → Prop where
  | punct (p : Punct) : Spells (.punct p) p.chars
  | keyword (k : Keyword) : Spells (.keyword k) k.text.toList
  | identifier {c : Char} {cs : List Char} : isNameStart c = true → (∀ d ∈ cs, isNamePart d = true) →
      (∀ k : Keyword, k.text.toList ≠ c :: cs) → Spells .identifier (c :: cs)
  | string {quote : Char} {body : List Char} : isQuote quote = true → quote ∉ body →
      Spells (.string (String.ofList body)) (quote :: (body ++ [quote]))
  | whole {d : Char} {ds : List Char} : (∀ c ∈ d :: ds, isDigit c = true) →
      Spells (.number (numberValue (d :: ds) [])) (d :: ds)
  | decimal {d e : Char} {ds es : List Char} : (∀ c ∈ d :: ds, isDigit c = true) → (∀ c ∈ e :: es, isDigit c = true) →
      Spells (.number (numberValue (d :: ds) (e :: es))) (d :: ds ++ '.' :: e :: es)

def StartsComment (cs : List Char) : Prop := ['/', '/'] <+: cs ∨ ['/', '*'] <+: cs

/-- No text of any class that starts the given one is longer. -/
def Longest (text cs : List Char) : Prop :=
  ∀ (kind : Kind) (other : List Char), kind.Spells other → other <+: cs → other.length ≤ text.length

/-- The piece that maximal munch takes off a text, and what it leaves of the text. -/
inductive Munch : Piece → List Char → Prop where
  | blank {c : Char} {rest : List Char} : isBlank c = true → Munch ⟨[c], .blank⟩ rest
  | lineComment {body rest : List Char} : '\n' ∉ body → (∀ d ∈ rest.head?, d = '\n') →
      Munch ⟨'/' :: '/' :: body, .blank⟩ rest
  | blockComment {body rest : List Char} : ¬ ['*', '/'] <:+: body ++ ['*'] →
      Munch ⟨'/' :: '*' :: (body ++ ['*', '/']), .blank⟩ rest
  | openComment {body : List Char} : ¬ ['*', '/'] <:+: body → Munch ⟨'/' :: '*' :: body, .blank⟩ []
  | token {kind : Kind} {text rest : List Char} : ¬ StartsComment (text ++ rest) → kind.Spells text →
      Longest text (text ++ rest) → Munch ⟨text, .token kind⟩ rest
  | unexpected {c : Char} {rest : List Char} : isBlank c = false →
      (∀ (kind : Kind) (text : List Char), kind.Spells text → text.head? ≠ some c) →
      Munch ⟨[c], .fault (.unexpected c)⟩ rest
  | unterminated {quote : Char} {body : List Char} : isQuote quote = true → quote ∉ body →
      Munch ⟨quote :: body, .fault .unterminatedString⟩ []

section Characters

variable {c : Char}

theorem isQuote_iff : isQuote c = true ↔ c = '\x22' ∨ c = '\x27' := by
  simp [isQuote]

theorem isNameStart_of_isDigit (h : isDigit c = true) : isNameStart c = false := by
  simp only [isDigit, isNameStart, Char.le_def, UInt32.le_iff_toNat_le, Bool.and_eq_true, decide_eq_true_eq,
    Bool.or_eq_false_iff, Bool.and_eq_false_iff, decide_eq_false_iff_not] at h ⊢
  have low : '0'.val.toNat = 48 := rfl
  have high : '9'.val.toNat = 57 := rfl
  have letters : 'a'.val.toNat = 97 ∧ 'A'.val.toNat = 65 := ⟨rfl, rfl⟩
  refine ⟨⟨.inl (by omega), .inl (by omega)⟩, ?_⟩
  rintro rfl
  revert h
  decide

theorem quote_exclusive (h : isQuote c = true) : isBlank c = false ∧ isDigit c = false ∧ isNameStart c = false := by
  rcases isQuote_iff.1 h with rfl | rfl <;> decide

theorem isBlank_of_isDigit (h : isDigit c = true) : isBlank c = false := by
  rw [← Bool.not_eq_true]
  intro blank
  simp only [isBlank, Bool.or_eq_true, decide_eq_true_eq] at blank
  rcases blank with ((rfl | rfl) | rfl) | rfl <;> exact absurd h (by decide)

theorem isBlank_of_isNameStart (h : isNameStart c = true) : isBlank c = false := by
  rw [← Bool.not_eq_true]
  intro blank
  simp only [isBlank, Bool.or_eq_true, decide_eq_true_eq] at blank
  rcases blank with ((rfl | rfl) | rfl) | rfl <;> exact absurd h (by decide)

theorem punct_first (p : Punct) : ∃ d ds, p.chars = d :: ds ∧ isBlank d = false ∧ isQuote d = false ∧
    isDigit d = false ∧ isNameStart d = false := by
  cases p <;> exact ⟨_, _, rfl, by decide⟩

theorem keyword_first (k : Keyword) : ∃ d ds, k.text.toList = d :: ds ∧ isNameStart d = true ∧
    ∀ e ∈ ds, isNamePart e = true := by
  cases k <;> exact ⟨_, _, rfl, by decide, List.all_eq_true.1 (by decide)⟩

end Characters

section Spells

variable {c : Char} {cs : List Char} {kind : Kind} {text : List Char}

/-- The first character decides between strings, numbers, words and punctuators. -/
theorem Kind.Spells.first (h : kind.Spells (c :: cs)) :
    (isQuote c = true ∧ ∃ body, c ∉ body ∧ cs = body ++ [c] ∧ kind = .string (String.ofList body)) ∨
    (isDigit c = true ∧ (((∀ d ∈ cs, isDigit d = true) ∧ kind = .number (numberValue (c :: cs) [])) ∨
      ∃ ds e es, (∀ d ∈ ds, isDigit d = true) ∧ (∀ d ∈ e :: es, isDigit d = true) ∧ cs = ds ++ '.' :: e :: es ∧
        kind = .number (numberValue (c :: ds) (e :: es)))) ∨
    (isNameStart c = true ∧ (∀ d ∈ cs, isNamePart d = true) ∧ kind = wordKind (c :: cs)) ∨
    ((isBlank c = false ∧ isQuote c = false ∧ isDigit c = false ∧ isNameStart c = false) ∧
      ∃ p, p.chars = c :: cs ∧ kind = .punct p) := by
  generalize he : c :: cs = text at h
  cases h with
  | punct p =>
    obtain ⟨d, ds, hp, plain⟩ := punct_first p
    cases he.trans hp
    exact .inr (.inr (.inr ⟨plain, p, rfl, rfl⟩))
  | keyword k =>
    obtain ⟨d, ds, hk, start, parts⟩ := keyword_first k
    rw [wordKind, String.ofList_toList, Keyword.ofText?_text]
    cases he.trans hk
    exact .inr (.inr (.inl ⟨start, parts, rfl⟩))
  | identifier start parts other =>
    cases he
    have none : Keyword.ofText? (String.ofList (c :: cs)) = none := by
      rw [Keyword.ofText?, List.find?_eq_none]
      intro k _ hk
      apply other k
      rw [of_decide_eq_true hk, String.toList_ofList]
    rw [wordKind, none]
    exact .inr (.inr (.inl ⟨start, parts, rfl⟩))
  | string quote body =>
    cases he
    exact .inl ⟨quote, _, body, rfl, rfl⟩
  | whole digits =>
    cases he
    obtain ⟨first, others⟩ := List.forall_mem_cons.1 digits
    exact .inr (.inl ⟨first, .inl ⟨others, rfl⟩⟩)
  | decimal digits fraction =>
    cases he
    obtain ⟨first, others⟩ := List.forall_mem_cons.1 digits
    exact .inr (.inl ⟨first, .inr ⟨_, _, _, others, fraction, rfl, rfl⟩⟩)

/-- What starts with a quote is a string. -/
theorem Kind.Spells.of_quote (h : kind.Spells (c :: cs)) (hc : isQuote c = true) :
    ∃ body, c ∉ body ∧ cs = body ++ [c] ∧ kind = .string (String.ofList body) := by
  obtain ⟨-, digit, name⟩ := quote_exclusive hc
  rcases h.first with ⟨-, string⟩ | ⟨hd, -⟩ | ⟨hn, -⟩ | ⟨⟨-, hq, -⟩, -⟩
  · exact string
  · simp [digit] at hd
  · simp [name] at hn
  · simp [hc] at hq

/-- What starts with a digit is a number, with or without a fraction. -/
theorem Kind.Spells.of_digit (h : kind.Spells (c :: cs)) (hc : isDigit c = true) :
    ((∀ d ∈ cs, isDigit d = true) ∧ kind = .number (numberValue (c :: cs) [])) ∨
      ∃ ds e es, (∀ d ∈ ds, isDigit d = true) ∧ (∀ d ∈ e :: es, isDigit d = true) ∧ cs = ds ++ '.' :: e :: es ∧
        kind = .number (numberValue (c :: ds) (e :: es)) := by
  rcases h.first with ⟨hq, -⟩ | ⟨-, number⟩ | ⟨hn, -⟩ | ⟨⟨-, -, hd, -⟩, -⟩
  · simp [(quote_exclusive hq).2.1] at hc
  · exact number
  · simp [isNameStart_of_isDigit hc] at hn
  · simp [hc] at hd

/-- What starts like a name is a word, and a keyword exactly if it is spelled like one. -/
theorem Kind.Spells.of_name (h : kind.Spells (c :: cs)) (hc : isNameStart c = true) :
    (∀ d ∈ cs, isNamePart d = true) ∧ kind = wordKind (c :: cs) := by
  rcases h.first with ⟨hq, -⟩ | ⟨hd, -⟩ | ⟨-, word⟩ | ⟨⟨-, -, -, hn⟩, -⟩
  · simp [(quote_exclusive hq).2.2] at hc
  · simp [isNameStart_of_isDigit hd] at hc
  · exact word
  · simp [hc] at hn

/-- All else is a punctuator. -/
theorem Kind.Spells.of_other (h : kind.Spells (c :: cs)) (quote : isQuote c = false) (digit : isDigit c = false)
    (name : isNameStart c = false) : ∃ p, p.chars = c :: cs ∧ kind = .punct p := by
  rcases h.first with ⟨hq, -⟩ | ⟨hd, -⟩ | ⟨hn, -⟩ | ⟨-, punct⟩
  · simp [quote] at hq
  · simp [digit] at hd
  · simp [name] at hn
  · exact punct

theorem Kind.Spells.not_blank (h : kind.Spells (c :: cs)) : isBlank c = false := by
  rcases h.first with ⟨hq, -⟩ | ⟨hd, -⟩ | ⟨hn, -⟩ | ⟨⟨blank, -⟩, -⟩
  · exact (quote_exclusive hq).1
  · exact isBlank_of_isDigit hd
  · exact isBlank_of_isNameStart hn
  · exact blank

theorem Kind.Spells.ne_nil (h : kind.Spells text) : ∃ c cs, text = c :: cs := by
  cases h with
  | punct p =>
    obtain ⟨d, ds, hp, -⟩ := punct_first p
    exact ⟨d, ds, hp⟩
  | keyword k =>
    obtain ⟨d, ds, hk, -⟩ := keyword_first k
    exact ⟨d, ds, hk⟩
  | _ => exact ⟨_, _, rfl⟩

end Spells

end Token

end Scriptlet
