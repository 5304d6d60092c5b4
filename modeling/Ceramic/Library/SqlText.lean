import Mathlib.Data.List.Basic

/-! SQL text with string literals: reading it as tokens, and writing it from pieces. In a literal a quote is
written twice; no other character is special. -/
namespace SqlText

def quote : Char := '\''

/-- A character outside of the literals, or a literal with the string that it denotes. -/
inductive Token where
  | code (c : Char)
  | literal (value : List Char)
  deriving DecidableEq, Repr

/-- Where in a text one is: in a literal, behind what was read of it, or behind a quote in it. -/
inductive Place where
  | outside
  | inside (value : List Char)
  | closing (value : List Char)
  deriving DecidableEq, Repr

def lexFrom : Place → List Char → Option (List Token)
  | .outside, [] => some []
  | .inside _, [] => none
  | .closing value, [] => some [.literal value]
  | .outside, c :: text =>
    if c = quote then lexFrom (.inside []) text else (lexFrom .outside text).map (.code c :: ·)
  | .inside value, c :: text =>
    if c = quote then lexFrom (.closing value) text else lexFrom (.inside (value ++ [c])) text
  | .closing value, c :: text =>
    if c = quote then lexFrom (.inside (value ++ [quote])) text
    else (lexFrom .outside text).map fun tokens => .literal value :: .code c :: tokens

/-- The tokens of a text; a literal has to end. -/
def lex (text : List Char) : Option (List Token) := lexFrom .outside text

def escape (value : List Char) : List Char := value.flatMap fun c => if c = quote then [quote, quote] else [c]

/-- The text of a token. -/
def Token.text : Token → List Char
  | .code c => [c]
  | .literal value => quote :: escape value ++ [quote]

@[simp] theorem escape_nil : escape [] = [] := rfl

theorem escape_snoc (value : List Char) (c : Char) :
    escape (value ++ [c]) = escape value ++ if c = quote then [quote, quote] else [c] := by
  simp [escape]

/-- What was read before a text. -/
def Place.front : Place → List Char
  | .outside => []
  | .inside value => quote :: escape value
  | .closing value => quote :: escape value ++ [quote]

/-- A text is what is written of its tokens. -/
theorem lexFrom_sound {place : Place} {text : List Char} {tokens : List Token}
    (h : lexFrom place text = some tokens) : place.front ++ text = tokens.flatMap Token.text := by
  induction text generalizing place tokens with
  | nil =>
    cases place with
    | outside =>
      obtain rfl : [] = tokens := Option.some.inj h
      rfl
    | inside value => cases h
    | closing value =>
      obtain rfl : [Token.literal value] = tokens := Option.some.inj h
      simp [Place.front, Token.text]
  | cons c text ih =>
    by_cases isQuote : c = quote
    · subst isQuote
      cases place with
      | outside =>
        rw [lexFrom, if_pos rfl] at h
        simpa [Place.front] using ih h
      | inside value =>
        rw [lexFrom, if_pos rfl] at h
        simpa [Place.front] using ih h
      | closing value =>
        rw [lexFrom, if_pos rfl] at h
        simpa [Place.front, escape_snoc] using ih h
    · cases place with
      | outside =>
        rw [lexFrom, if_neg isQuote] at h
        obtain ⟨rest, found, rfl⟩ := Option.map_eq_some_iff.mp h
        simpa [Place.front, Token.text] using ih found
      | inside value =>
        rw [lexFrom, if_neg isQuote] at h
        simpa [Place.front, escape_snoc, isQuote] using ih h
      | closing value =>
        rw [lexFrom, if_neg isQuote] at h
        obtain ⟨rest, found, rfl⟩ := Option.map_eq_some_iff.mp h
        simpa [Place.front, Token.text] using ih found

/-- No character outside of the literals is a quote, and no literal follows another at once. -/
def Separated : List Token → Prop
  | [] => True
  | .code c :: tokens => c ≠ quote ∧ Separated tokens
  | .literal _ :: tokens => (∀ value, tokens.head? ≠ some (.literal value)) ∧ Separated tokens

theorem lexFrom_escape (value read text : List Char) :
    lexFrom (.inside read) (escape value ++ text) = lexFrom (.inside (read ++ value)) text := by
  induction value generalizing read with
  | nil => simp
  | cons c value ih =>
    by_cases isQuote : c = quote
    · simpa [escape, isQuote, lexFrom] using ih (read ++ [quote])
    · simpa [escape, isQuote, lexFrom] using ih (read ++ [c])

/-- What is written of separated tokens is read as them. -/
theorem lex_text {tokens : List Token} (separated : Separated tokens) :
    lex (tokens.flatMap Token.text) = some tokens := by
  induction tokens with
  | nil => rfl
  | cons token tokens ih =>
    cases token with
    | code c =>
      obtain ⟨other, separated⟩ := separated
      simp only [lex] at ih ⊢
      simp [Token.text, lexFrom, other, ih separated]
    | literal value =>
      obtain ⟨apart, separated⟩ := separated
      have behind := ih separated
      have start : lex ((Token.literal value :: tokens).flatMap Token.text) =
          lexFrom (.closing value) (tokens.flatMap Token.text) := by
        simp [lex, Token.text, lexFrom, lexFrom_escape]
      rw [start]
      cases tokens with
      | nil => rfl
      | cons next tokens =>
        cases next with
        | literal other => exact absurd rfl (apart other)
        | code c =>
          obtain ⟨other, _⟩ := separated
          simp only [lex] at behind
          simp only [List.flatMap_cons, Token.text, List.cons_append, List.nil_append, lexFrom, if_neg other,
            Option.map_eq_some_iff] at behind ⊢
          obtain ⟨rest, found, same⟩ := behind
          exact ⟨rest, found, by rw [← same]⟩

/-- A text is read as given tokens if it is what is written of them. -/
theorem lex_eq_iff {text : List Char} {tokens : List Token} (separated : Separated tokens) :
    lex text = some tokens ↔ text = tokens.flatMap Token.text := by
  constructor
  · exact fun h => lexFrom_sound h
  · rintro rfl
    exact lex_text separated

/-- A part of a text that is put together: code, or a string between quotes or as it is. -/
inductive Piece where
  | code (text : List Char)
  | quoted (value : List Char)
  | bare (value : List Char)
  deriving DecidableEq, Repr

namespace Piece

def written : Piece → List Char
  | .code text => text
  | .quoted value => quote :: value ++ [quote]
  | .bare value => value

/-- What the part stands for. -/
def tokens : Piece → List Token
  | .code text => text.map .code
  | .quoted value | .bare value => [.literal value]

/-- Whether that is what is read of it. -/
def Faithful : Piece → Prop
  | .code _ => True
  | .quoted value => quote ∉ value
  | .bare _ => False

end Piece

theorem escape_eq_self {value : List Char} (plain : quote ∉ value) : escape value = value := by
  induction value with
  | nil => rfl
  | cons c value ih =>
    rw [List.mem_cons, not_or] at plain
    have behind := ih plain.2
    simp only [escape] at behind
    simp [escape, Ne.symm plain.1, behind]

theorem count_escape (value : List Char) : (escape value).count quote = 2 * value.count quote := by
  induction value with
  | nil => rfl
  | cons c value ih =>
    simp only [escape] at ih
    by_cases isQuote : c = quote
    · simp [escape, isQuote, ih]
      omega
    · simp [escape, isQuote, ih]

theorem code_text (text : List Char) : (text.map Token.code).flatMap Token.text = text := by
  induction text with
  | nil => rfl
  | cons c text ih => simpa [Token.text] using ih

/-- A faithful part is written as its tokens are; any other has fewer quotes than they have. -/
theorem Piece.written_faithful (piece : Piece) :
    (piece.Faithful ∧ piece.written = piece.tokens.flatMap Token.text) ∨
      (¬piece.Faithful ∧ piece.written.count quote < (piece.tokens.flatMap Token.text).count quote) := by
  cases piece with
  | code text => exact .inl ⟨trivial, (code_text text).symm⟩
  | quoted value =>
    by_cases plain : quote ∈ value
    · refine .inr ⟨not_not.mpr plain, ?_⟩
      have := List.count_pos_iff.mpr plain
      simp [written, tokens, Token.text, count_escape]
      omega
    · refine .inl ⟨plain, ?_⟩
      simp [written, tokens, Token.text, escape_eq_self plain]
  | bare value =>
    refine .inr ⟨id, ?_⟩
    simp [written, tokens, Token.text, count_escape]
    omega

theorem count_written (pieces : List Piece) : (pieces.flatMap Piece.written).count quote ≤
    ((pieces.flatMap Piece.tokens).flatMap Token.text).count quote := by
  induction pieces with
  | nil => exact Nat.le_refl _
  | cons piece pieces ih =>
    simp only [List.flatMap_cons, List.flatMap_append, List.count_append]
    rcases piece.written_faithful with ⟨_, same⟩ | ⟨_, fewer⟩
    · rw [same]
      omega
    · omega

/-- A text that is put together is read as what its parts stand for if each of them is faithful. -/
theorem lex_written_iff {pieces : List Piece} (separated : Separated (pieces.flatMap Piece.tokens)) :
    lex (pieces.flatMap Piece.written) = some (pieces.flatMap Piece.tokens) ↔ ∀ piece ∈ pieces, piece.Faithful := by
  rw [lex_eq_iff separated]
  clear separated
  induction pieces with
  | nil => simp
  | cons piece pieces ih =>
    rw [List.forall_mem_cons, ← ih]
    simp only [List.flatMap_cons, List.flatMap_append]
    rcases piece.written_faithful with ⟨faithful, same⟩ | ⟨unfaithful, fewer⟩
    · rw [and_iff_right faithful, same]
      exact List.append_right_inj _
    · refine iff_of_false (fun same => ?_) (fun both => unfaithful both.1)
      have counts := congrArg (List.count quote) same
      have := count_written pieces
      simp only [List.count_append] at counts
      omega

/-- A part that begins with code, if it is there at all. -/
def BeginsWithCode : List Piece → Prop
  | [] => True
  | .code text :: _ => text ≠ []
  | _ => False

/-- There are no quotes in the code, and code stands behind each string. -/
def Apart : List Piece → Prop
  | [] => True
  | .code text :: pieces => quote ∉ text ∧ Apart pieces
  | _ :: pieces => BeginsWithCode pieces ∧ Apart pieces

theorem separated_code {text : List Char} (plain : quote ∉ text) {tokens : List Token} (behind : Separated tokens) :
    Separated (text.map Token.code ++ tokens) := by
  induction text with
  | nil => exact behind
  | cons c text ih =>
    rw [List.mem_cons, not_or] at plain
    exact ⟨Ne.symm plain.1, ih plain.2⟩

theorem head_of_beginsWithCode {pieces : List Piece} (begins : BeginsWithCode pieces) (value : List Char) :
    (pieces.flatMap Piece.tokens).head? ≠ some (.literal value) := by
  cases pieces with
  | nil => simp
  | cons piece pieces =>
    cases piece with
    | code text =>
      obtain ⟨c, text, rfl⟩ := List.exists_cons_of_ne_nil begins
      simp [Piece.tokens]
    | quoted value => exact begins.elim
    | bare value => exact begins.elim

theorem separated_of_apart {pieces : List Piece} (apart : Apart pieces) : Separated (pieces.flatMap Piece.tokens) := by
  induction pieces with
  | nil => trivial
  | cons piece pieces ih =>
    cases piece with
    | code text => exact separated_code apart.1 (ih apart.2)
    | quoted value => exact ⟨head_of_beginsWithCode apart.1, ih apart.2⟩
    | bare value => exact ⟨head_of_beginsWithCode apart.1, ih apart.2⟩

theorem written_intersperse (separator : Piece) (pieces : List Piece) :
    (pieces.intersperse separator).flatMap Piece.written =
      separator.written.intercalate (pieces.map Piece.written) := by
  induction pieces with
  | nil => rfl
  | cons piece pieces ih =>
    cases pieces with
    | nil => simp [List.intercalate]
    | cons next pieces => simpa [List.intercalate] using ih

theorem mem_intersperse {separator piece : Piece} {pieces : List Piece} :
    piece ∈ pieces.intersperse separator ↔ piece ∈ pieces ∨ (piece = separator ∧ 1 < pieces.length) := by
  induction pieces with
  | nil => simp
  | cons first pieces ih =>
    cases pieces with
    | nil => simp
    | cons next pieces =>
      rw [List.intersperse_cons_cons, List.mem_cons, List.mem_cons, ih, List.mem_cons]
      simp
      tauto

/-- Parts with code between them, and code behind the last. -/
theorem apart_intersperse {separator : List Char} (separates : separator ≠ [] ∧ quote ∉ separator)
    {pieces tail : List Piece} (plain : ∀ text, .code text ∈ pieces → quote ∉ text) (begins : BeginsWithCode tail)
    (apart : Apart tail) : Apart (pieces.intersperse (.code separator) ++ tail) := by
  induction pieces with
  | nil => exact apart
  | cons piece pieces ih =>
    have behind := ih fun text member => plain text (List.mem_cons_of_mem _ member)
    cases pieces with
    | nil =>
      cases piece with
      | code text => exact ⟨plain text List.mem_cons_self, apart⟩
      | quoted value => exact ⟨begins, apart⟩
      | bare value => exact ⟨begins, apart⟩
    | cons next pieces =>
      cases piece with
      | code text => exact ⟨plain text List.mem_cons_self, separates.2, behind⟩
      | quoted value => exact ⟨separates.1, separates.2, behind⟩
      | bare value => exact ⟨separates.1, separates.2, behind⟩

end SqlText
