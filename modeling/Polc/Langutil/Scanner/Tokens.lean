import Polc.Langutil.Scanner
import Mathlib.Data.List.Infix

/-!
# Scanning tokens and comments

The rest of the scanner of `liblangutil/Scanner.cpp`. A character stands for a byte, and a position
for the source from there on.
-/

namespace Langutil

open Scanner (currentChar)

def isLineTerminator (c : Char) : Bool := c = '\n'

def isWhiteSpace (c : Char) : Bool := c = ' ' || c = '\n' || c = '\t' || c = '\r'

def isIdentifierPart (c : Char) : Bool := isIdentifierStart c || isDecimalDigit c

def hexValue (c : Char) : Option ℕ :=
  if isDecimalDigit c then some (c.toNat - '0'.toNat)
  else if 'a' ≤ c && c ≤ 'f' then some (c.toNat - 'a'.toNat + 10)
  else if 'A' ≤ c && c ≤ 'F' then some (c.toNat - 'A'.toNat + 10)
  else none

namespace Scanner

/-- The tokens. Identifiers, keywords and the names of elementary types are words, which
`fromIdentifierOrKeyword` tells apart by their literals. -/
inductive Token where
  | word | punctuator (text : List Char) | stringLiteral | number | illegal | eos
  deriving DecidableEq

/-- A token as it is scanned, and the source behind it. -/
structure Scan where
  token : Token
  literal : List Char
  error : Option ScannerError
  rest : List Char
  deriving DecidableEq

/-- The literal is dropped where scanning it is aborted. -/
def illegal (error : ScannerError) (rest : List Char) : Scan := ⟨.illegal, [], some error, rest⟩

structure TokenDesc extends Scan where
  start : List Char
  deriving DecidableEq

/-- A documentation comment. -/
structure Comment where
  literal : List Char
  start : List Char
  stop : List Char
  deriving DecidableEq

/-- A line feed, vertical tab, form feed or carriage return, or one of the line breaks U+0085,
U+2028 and U+2029 in UTF-8. -/
def isUnicodeLinebreak (rest : List Char) : Bool :=
  (10 ≤ (currentChar rest).toNat && (currentChar rest).toNat ≤ 13) ||
    match rest.map Char.toNat with
    | 0xc2 :: 0x85 :: _ => true
    | 0xe2 :: 0x80 :: c :: _ => c = 0xa8 || c = 0xa9
    | _ => false

def skipWhitespace (rest : List Char) : List Char := rest.dropWhile isWhiteSpace

def skipWhitespaceExceptUnicodeLinebreak (rest : List Char) : List Char :=
  rest.dropWhile fun c => isWhiteSpace c && !isUnicodeLinebreak [c]

/-! ### Strings -/

/-- `n` hexadecimal digits. The scanner rolls back if there are fewer. -/
def scanHexDigits : ℕ → ℕ → List Char → Option (ℕ × List Char)
  | 0, x, rest => some (x, rest)
  | n + 1, x, rest =>
    match hexValue (currentChar rest) with
    | none => none
    | some d => scanHexDigits n (x * 16 + d) rest.tail

def unicodeAsUTF8 (codepoint : ℕ) : List Char :=
  (if codepoint ≤ 0x7f then [codepoint]
  else if codepoint ≤ 0x7ff then [0xc0 ||| codepoint >>> 6, 0x80 ||| codepoint &&& 0x3f]
  else [0xe0 ||| codepoint >>> 12, 0x80 ||| codepoint >>> 6 &&& 0x3f,
    0x80 ||| codepoint &&& 0x3f]).map .ofNat

/-- The characters that stand behind a backslash for one character. -/
def escapes : List (Char × Char) :=
  [('\'', '\''), ('"', '"'), ('\\', '\\'), ('b', .ofNat 8), ('f', .ofNat 12), ('n', '\n'),
    ('r', '\r'), ('t', '\t'), ('v', .ofNat 11)]

/-- `n` digits and what they stand for. -/
def scanEscapedDigits (n : ℕ) (decode : ℕ → List Char) (rest : List Char) :
    Option (List Char) × List Char :=
  match scanHexDigits n 0 rest with
  | some (x, rest) => (some (decode x), rest)
  | none => (none, rest)

/-- The characters that an escape sequence adds, if it is valid, and the source behind it. -/
def scanEscape (c : Char) (rest : List Char) : Option (List Char) × List Char :=
  -- Skip escaped newlines.
  if isLineTerminator c then (some [], rest)
  else if c = 'u' then scanEscapedDigits 4 unicodeAsUTF8 rest
  else if c = 'x' then scanEscapedDigits 2 (fun byte => [.ofNat byte]) rest
  else ((escapes.lookup c).map fun c => [c], rest)

lemma scanHexDigits_suffix {n x : ℕ} {rest : List Char} {r : ℕ × List Char}
    (h : scanHexDigits n x rest = some r) : r.2 <:+ rest := by
  induction n generalizing x rest with
  | zero =>
    cases h
    exact List.suffix_rfl
  | succ n ih =>
    rw [scanHexDigits] at h
    split at h
    · cases h
    · exact (ih h).trans (List.tail_suffix rest)

lemma scanEscape_suffix (c : Char) (rest : List Char) : (scanEscape c rest).2 <:+ rest := by
  have hdigits : ∀ n decode, (scanEscapedDigits n decode rest).2 <:+ rest := by
    intro n decode
    rw [scanEscapedDigits]
    split
    · exact scanHexDigits_suffix ‹_›
    · exact List.suffix_rfl
  rw [scanEscape]
  split_ifs
  · exact List.suffix_rfl
  · exact hdigits _ _
  · exact hdigits _ _
  · exact List.suffix_rfl

/-- A string behind the opening quote. -/
def scanString (quote : Char) (literal rest : List Char) : Scan :=
  match rest with
  | [] => illegal .illegalStringEndQuote []
  | c :: rest =>
    if c = quote then ⟨.stringLiteral, literal, none, rest⟩
    else if isUnicodeLinebreak (c :: rest) then illegal .illegalStringEndQuote (c :: rest)
    else if c = '\\' then
      match rest with
      | [] => illegal .illegalEscapeSequence []
      | c :: rest =>
        have := (scanEscape_suffix c rest).length_le
        match (scanEscape c rest).1 with
        | some chars => scanString quote (literal ++ chars) (scanEscape c rest).2
        | none => illegal .illegalEscapeSequence (scanEscape c rest).2
    else scanString quote (literal ++ [c]) rest
termination_by rest.length

/-- A hexadecimal string behind the opening quote. -/
def scanHexString (quote : Char) (literal : List Char) : List Char → Scan
  | [] => illegal .illegalStringEndQuote []
  | c :: rest =>
    if c = quote then ⟨.stringLiteral, literal, none, rest⟩
    else
      match rest with
      | [] => illegal .illegalHexString [c]
      | d :: rest' =>
        match scanHexDigits 2 0 [c, d] with
        | some (byte, _) => scanHexString quote (literal ++ [.ofNat byte]) rest'
        | none => illegal .illegalHexString (c :: d :: rest')

def scanIdentifierOrKeyword (supportPeriodInIdentifier : Bool) (rest : List Char) : Scan :=
  let word := rest.span fun c => isIdentifierPart c || (c = '.' && supportPeriodInIdentifier)
  if word.1 = "hex".toList then
    -- Special quoted hex string must follow.
    match word.2 with
    | c :: rest =>
      if c = '"' ∨ c = '\'' then scanHexString c [] rest
      else ⟨.illegal, word.1, some .illegalToken, word.2⟩
    | [] => ⟨.illegal, word.1, some .illegalToken, []⟩
  else ⟨.word, word.1, none, word.2⟩

def number : Scanned → Scan
  | .ok (text, rest) => ⟨.number, text, none, rest⟩
  | .error (e, rest) => illegal e rest

/-- The end of the line, or of the source. -/
def skipSingleLineComment : List Char → List Char
  | [] => []
  | c :: rest => if isUnicodeLinebreak (c :: rest) then c :: rest else skipSingleLineComment rest

/-- The slash that ends a comment. -/
def skipMultiLineComment : List Char → Option (List Char)
  | '*' :: '/' :: rest => some ('/' :: rest)
  | _ :: rest => skipMultiLineComment rest
  | [] => none

lemma skipWhitespace_suffix (rest : List Char) : skipWhitespace rest <:+ rest :=
  List.dropWhile_suffix _

/-- A comment behind `///`, which goes on if the next line is a documentation comment, too. -/
def scanSingleLineDocComment (literal rest : List Char) : List Char × List Char :=
  match rest with
  | [] => (literal, [])
  | c :: rest' =>
    if isLineTerminator c then
      match h : skipWhitespace (c :: rest') with
      | '/' :: '/' :: '/' :: d :: next =>
        have hlt : next.length < (c :: rest').length := by
          have := (skipWhitespace_suffix (c :: rest')).length_le
          rw [h] at this
          exact Nat.lt_of_succ_le ((Nat.le_add_right _ 3).trans this)
        scanSingleLineDocComment (literal ++ ['\n', d]) next
      | next => (literal, next)
    else if isUnicodeLinebreak (c :: rest') then (literal, c :: rest')
    else scanSingleLineDocComment (literal ++ [c]) rest'
termination_by rest.length
decreasing_by
  · exact hlt
  · exact Nat.lt_succ_self _

/-- What is added at the beginning of a line of a comment behind `/**`, which is left without its
first star. -/
def beginLine (charsAdded : Bool) (rest : List Char) : List Char × List Char :=
  if isLineTerminator (currentChar rest) then
    match skipWhitespace rest with
    | '*' :: '*' :: rest => (['*'], '*' :: rest)
    | '*' :: '/' :: rest => ([], '*' :: '/' :: rest)
    | '*' :: _ :: rest => (if charsAdded then ['\n'] else [], rest)
    | rest => (if charsAdded then ['\n'] else [], rest)
  else ([], rest)

lemma beginLine_suffix (charsAdded : Bool) (rest : List Char) :
    (beginLine charsAdded rest).2 <:+ rest := by
  rw [beginLine]
  split
  · refine List.IsSuffix.trans ?_ (skipWhitespace_suffix rest)
    generalize skipWhitespace rest = r
    split
    · exact List.suffix_cons _ _
    · exact List.suffix_rfl
    · exact ⟨[_, _], rfl⟩
    · exact List.suffix_rfl
  · exact List.suffix_rfl

/-- A comment behind `/**`, and the source behind it if it is terminated. -/
def scanMultiLineDocComment (charsAdded : Bool) (literal rest : List Char) :
    List Char × Option (List Char) :=
  if rest = [] then (literal, none)
  else
    let literal := literal ++ (beginLine charsAdded rest).1
    match h : (beginLine charsAdded rest).2 with
    | '*' :: '/' :: next => (literal, some next)
    | c :: next => scanMultiLineDocComment true (literal ++ [c]) next
    -- The current character is zero past the end of the input.
    | [] => (literal ++ [.ofNat 0], none)
termination_by rest.length
decreasing_by
  have hle := (beginLine_suffix charsAdded rest).length_le
  rw [h] at hle
  exact hle

/-- The other tokens without a literal, each one before those it starts with. -/
def punctuators : List (List Char) :=
  [">>>=", ">>>", ">>=", ">>", ">=", ">", "<<=", "<<", "<=", "<", "==", "=>", "=", "!=", "!", "++",
    "+=", "+", "--", "-=", "-", "**", "*=", "*", "%=", "%", "&&", "&=", "&", "||", "|=", "|", "^=",
    "^", ":=", ":", ".", ";", ",", "(", ")", "[", "]", "\x7b", "\x7d", "?", "~"].map String.toList

/-- What one round of `scanToken` finds: a token, or something to skip with the current character
behind it. It may have recorded a documentation comment. -/
inductive Round where
  | token (t : Scan) (comment : Option Comment)
  | whitespace (char : Char) (rest : List Char) (comment : Option Comment)

def Round.rest : Round → List Char
  | .token t _ => t.rest
  | .whitespace _ rest _ => rest

/-- Whitespace, with the first character of the source as the current one. -/
def skip (rest : List Char) (comment : Option Comment) : Round :=
  .whitespace (currentChar rest) rest comment

/-- A slash, with what is behind it. -/
def scanSlash (rest : List Char) : Round :=
  let start := '/' :: rest
  match rest with
  | '/' :: '/' :: rest =>
    -- doxygen style /// comment
    let comment := scanSingleLineDocComment [] (skipWhitespaceExceptUnicodeLinebreak rest)
    skip comment.2 (some ⟨comment.1, start, comment.2⟩)
  | '/' :: rest => skip (skipSingleLineComment rest) none
  | '*' :: '*' :: '/' :: rest => skip rest none
  | '*' :: '*' :: rest =>
    -- doxygen style /** natspec comment
    let comment := scanMultiLineDocComment false []
      (rest.dropWhile fun c => isWhiteSpace c && !isLineTerminator c)
    match comment.2 with
    | some rest => skip rest (some ⟨comment.1, start, rest⟩)
    | none => .token (illegal .illegalCommentTerminator []) (some ⟨comment.1, start, []⟩)
  | '*' :: rest =>
    match skipMultiLineComment rest.tail with
    -- The closing slash is replaced by whitespace.
    | some rest => .whitespace ' ' rest none
    | none => .token (illegal .illegalCommentTerminator []) none
  | '=' :: rest => .token ⟨.punctuator ['/', '='], [], none, rest⟩ none
  | rest => .token ⟨.punctuator ['/'], [], none, rest⟩ none

/-- The token at a character that is neither whitespace nor a slash. -/
def scanOther (supportPeriodInIdentifier : Bool) (c : Char) (rest : List Char) : Scan :=
  if c = '"' ∨ c = '\'' then scanString c [] rest
  else if c = '.' ∧ isDecimalDigit (currentChar rest) = true then number (scanNumber true rest)
  else
    match punctuators.find? (·.isPrefixOf (c :: rest)) with
    | some text => ⟨.punctuator text, [], none, (c :: rest).drop text.length⟩
    | none =>
      if isIdentifierStart c then scanIdentifierOrKeyword supportPeriodInIdentifier (c :: rest)
      else if isDecimalDigit c then number (scanNumber false (c :: rest))
      else illegal .illegalToken rest

/-- One round. Between rounds the current character is the first one of the source, or a space in
place of the slash that ends a comment. -/
def round (supportPeriodInIdentifier : Bool) (char : Char) : List Char → Round
  | [] => .token ⟨.eos, [], none, []⟩ none
  | c :: rest =>
    if isWhiteSpace char then skip (skipWhitespace rest) none
    else if c = '/' then scanSlash rest
    else .token (scanOther supportPeriodInIdentifier c rest) none

/-! ### Progress -/

section

variable {c : Char} {rest : List Char}

lemma scanDecimalDigits_suffix (rest : List Char) : (scanDecimalDigits rest).2 <:+ rest := by
  rw [scanDecimalDigits]
  split_ifs
  · rw [List.span_eq_takeWhile_dropWhile]
    exact List.dropWhile_suffix _
  · exact List.suffix_rfl

lemma finish_rest (text rest : List Char) : (number (finish text rest)).rest = rest := by
  rw [finish]
  split_ifs <;> rfl

lemma scanExponentDigits_suffix (text rest : List Char) :
    (number (scanExponentDigits text rest)).rest <:+ rest := by
  rw [scanExponentDigits]
  split_ifs
  · rw [finish_rest]
    exact scanDecimalDigits_suffix rest
  · exact List.suffix_rfl

lemma scanSignedExponent_suffix (text rest : List Char) :
    (number (scanSignedExponent text rest)).rest <:+ rest := by
  rw [scanSignedExponent]
  split_ifs
  · exact (scanExponentDigits_suffix _ _).trans (List.tail_suffix rest)
  · exact scanExponentDigits_suffix _ _

lemma scanExponent_suffix (text rest : List Char) :
    (number (scanExponent text rest)).rest <:+ rest := by
  rw [scanExponent]
  split_ifs
  · exact (scanDecimalDigits_suffix _).trans (List.drop_suffix 2 rest)
  · exact (scanSignedExponent_suffix _ _).trans (List.tail_suffix rest)
  · rw [finish_rest]

lemma scanPoint_suffix (text rest : List Char) : (number (scanPoint text rest)).rest <:+ rest := by
  rw [scanPoint]
  split_ifs
  · exact List.suffix_rfl
  · exact (scanExponent_suffix _ _).trans
      ((scanDecimalDigits_suffix _).trans (List.tail_suffix rest))

lemma scanFraction_suffix (text rest : List Char) :
    (number (scanFraction text rest)).rest <:+ rest := by
  rw [scanFraction]
  split_ifs
  · exact (scanPoint_suffix _ _).trans
      ((scanDecimalDigits_suffix _).trans (List.drop_suffix 2 rest))
  · exact scanPoint_suffix _ _
  · exact scanExponent_suffix _ _

lemma scanNumber_suffix (hc : isDecimalDigit c) :
    (number (scanNumber false (c :: rest))).rest <:+ rest := by
  rw [scanNumber, if_neg Bool.false_ne_true]
  split_ifs
  · have htail : List.drop 2 (c :: rest) <:+ rest := List.drop_suffix 1 rest
    rw [scanHex]
    split_ifs
    · rw [finish_rest, List.span_eq_takeWhile_dropWhile]
      exact (List.dropWhile_suffix _).trans htail
    · exact htail
  · exact List.suffix_rfl
  · exact (scanFraction_suffix _ _).trans (scanDecimalDigits_suffix rest)
  · refine (scanFraction_suffix _ _).trans ?_
    rw [scanDecimalDigits, currentChar, List.headD_cons, if_pos hc,
      List.span_eq_takeWhile_dropWhile,
      List.dropWhile_cons_of_pos (by rw [hc]; rfl)]
    exact List.dropWhile_suffix _

lemma scanFloat_suffix (rest : List Char) : (number (scanNumber true rest)).rest <:+ rest := by
  rw [scanNumber, if_pos rfl]
  split_ifs
  · exact List.suffix_rfl
  · exact (scanExponent_suffix _ _).trans (scanDecimalDigits_suffix rest)

lemma scanString_suffix (quote : Char) (literal rest : List Char) :
    (scanString quote literal rest).rest <:+ rest := by
  fun_induction scanString quote literal rest with
  | case1 => exact List.suffix_rfl
  | case2 => exact List.suffix_cons _ _
  | case3 => exact List.suffix_rfl
  | case4 => exact List.nil_suffix
  | case5 _ _ _ _ _ _ _ _ ih =>
    exact ih.trans (((scanEscape_suffix _ _).trans (List.suffix_cons _ _)).trans
      (List.suffix_cons _ _))
  | case6 =>
    exact ((scanEscape_suffix _ _).trans (List.suffix_cons _ _)).trans (List.suffix_cons _ _)
  | case7 literal c rest _ _ _ ih => exact ih.trans (List.suffix_cons _ _)

lemma scanHexString_suffix (quote : Char) (literal rest : List Char) :
    (scanHexString quote literal rest).rest <:+ rest := by
  fun_induction scanHexString quote literal rest with
  | case1 => exact List.suffix_rfl
  | case2 => exact List.suffix_cons _ _
  | case3 => exact List.suffix_rfl
  | case4 literal c _ d rest byte _ _ ih =>
    exact ih.trans ((List.suffix_cons _ _).trans (List.suffix_cons _ _))
  | case5 => exact List.suffix_rfl

lemma scanIdentifierOrKeyword_suffix (supportPeriodInIdentifier : Bool)
    (hc : isIdentifierStart c) :
    (scanIdentifierOrKeyword supportPeriodInIdentifier (c :: rest)).rest <:+ rest := by
  have hword : (List.span (fun c => isIdentifierPart c || (c = '.' && supportPeriodInIdentifier))
      (c :: rest)).2 <:+ rest := by
    rw [List.span_eq_takeWhile_dropWhile,
      List.dropWhile_cons_of_pos (by rw [isIdentifierPart, hc]; rfl)]
    exact List.dropWhile_suffix _
  rw [scanIdentifierOrKeyword]
  split_ifs
  · split
    · rename_i hrest
      rw [hrest] at hword
      split_ifs
      · exact (scanHexString_suffix _ _ _).trans ((List.suffix_cons _ _).trans hword)
      · exact hrest ▸ hword
    · exact List.nil_suffix
  · exact hword

lemma scanOther_suffix (supportPeriodInIdentifier : Bool) (c : Char) (rest : List Char) :
    (scanOther supportPeriodInIdentifier c rest).rest <:+ rest := by
  rw [scanOther]
  by_cases hquote : c = '"' ∨ c = '\''
  · rw [if_pos hquote]
    exact scanString_suffix _ _ _
  rw [if_neg hquote]
  by_cases hfloat : c = '.' ∧ isDecimalDigit (currentChar rest) = true
  · rw [if_pos hfloat]
    exact scanFloat_suffix rest
  rw [if_neg hfloat]
  split
  · rename_i text htext
    have hpos : text ≠ [] := by
      rintro rfl
      exact absurd (List.mem_of_find?_eq_some htext) (by decide)
    obtain ⟨d, text, rfl⟩ := List.exists_cons_of_ne_nil hpos
    exact List.drop_suffix _ rest
  · split_ifs
    · exact scanIdentifierOrKeyword_suffix _ ‹_›
    · exact scanNumber_suffix ‹_›
    · exact List.suffix_rfl

lemma skipSingleLineComment_suffix (rest : List Char) : skipSingleLineComment rest <:+ rest := by
  fun_induction skipSingleLineComment rest with
  | case1 => exact List.suffix_rfl
  | case2 => exact List.suffix_rfl
  | case3 c rest _ ih => exact ih.trans (List.suffix_cons _ _)

lemma skipMultiLineComment_suffix {r : List Char} (h : skipMultiLineComment rest = some r) :
    r <:+ rest := by
  fun_induction skipMultiLineComment rest with
  | case1 =>
    cases h
    exact List.suffix_cons _ _
  | case2 c rest _ ih => exact (ih h).trans (List.suffix_cons _ _)
  | case3 => cases h

lemma scanSingleLineDocComment_suffix (literal rest : List Char) :
    (scanSingleLineDocComment literal rest).2 <:+ rest := by
  fun_induction scanSingleLineDocComment literal rest with
  | case1 => exact List.suffix_rfl
  | case2 literal c rest _ d next h _ ih =>
    have hnext : next <:+ skipWhitespace (c :: rest) := h ▸ ⟨['/', '/', '/', d], rfl⟩
    exact ih.trans (hnext.trans (skipWhitespace_suffix _))
  | case3 => exact skipWhitespace_suffix _
  | case4 => exact List.suffix_rfl
  | case5 literal c rest _ _ ih => exact ih.trans (List.suffix_cons _ _)

lemma scanMultiLineDocComment_suffix {charsAdded : Bool} {literal r : List Char}
    (h : (scanMultiLineDocComment charsAdded literal rest).2 = some r) : r <:+ rest := by
  have hsuffix := beginLine_suffix charsAdded rest
  fun_induction scanMultiLineDocComment charsAdded literal rest with
  | case1 => cases h
  | case2 charsAdded literal rest _ _ next hnext =>
    cases h
    rw [hnext] at hsuffix
    exact (List.suffix_cons _ _).trans ((List.suffix_cons _ _).trans hsuffix)
  | case3 charsAdded literal rest _ _ c next _ hnext ih =>
    rw [hnext] at hsuffix
    exact (ih h (beginLine_suffix _ _)).trans ((List.suffix_cons _ _).trans hsuffix)
  | case4 => cases h

lemma round_suffix (supportPeriodInIdentifier : Bool) (char c : Char) (rest : List Char) :
    (round supportPeriodInIdentifier char (c :: rest)).rest <:+ rest := by
  rw [round]
  split_ifs
  · exact skipWhitespace_suffix rest
  · rw [scanSlash.eq_def]
    split
    · exact (scanSingleLineDocComment_suffix _ _).trans
        ((List.dropWhile_suffix _).trans ⟨[_, _], rfl⟩)
    · exact (skipSingleLineComment_suffix _).trans (List.suffix_cons _ _)
    · exact ⟨[_, _, _], rfl⟩
    · dsimp only
      split
      · rename_i h
        exact (scanMultiLineDocComment_suffix h).trans
          ((List.dropWhile_suffix _).trans ⟨[_, _], rfl⟩)
      · exact List.nil_suffix
    · split
      · rename_i h
        exact (skipMultiLineComment_suffix h).trans
          ((List.tail_suffix _).trans (List.suffix_cons _ _))
      · exact List.nil_suffix
    · exact List.suffix_cons _ _
    · exact List.suffix_rfl
  · exact scanOther_suffix _ _ _

end

/-- `scanToken` up to a token, with the documentation comment that was recorded last. -/
def scanLoop (supportPeriodInIdentifier : Bool) (char : Char) (rest : List Char) :
    TokenDesc × Option Comment :=
  match h : round supportPeriodInIdentifier char rest with
  | .token t comment => (⟨t, rest⟩, comment)
  | .whitespace char' rest' comment =>
    let r := scanLoop supportPeriodInIdentifier char' rest'
    (r.1, r.2.or comment)
termination_by rest.length
decreasing_by
  cases rest with
  | nil => cases h
  | cons c rest =>
    have hle := (round_suffix supportPeriodInIdentifier char c rest).length_le
    rw [h] at hle
    exact Nat.lt_succ_of_le hle

end Scanner

/-- The scanner between two calls: the current character is the first one of the source. -/
structure Scanner where
  supportPeriodInIdentifier : Bool
  skippedComment : Scanner.Comment
  nextSkippedComment : Scanner.Comment
  currentToken : Scanner.TokenDesc
  nextToken : Scanner.TokenDesc
  rest : List Char
  deriving DecidableEq

namespace Scanner

/-- A new scanner. -/
def fresh : Scanner :=
  let token : TokenDesc := ⟨illegal .illegalToken [], []⟩
  ⟨false, ⟨[], [], []⟩, ⟨[], [], []⟩, token, token, []⟩

variable (s : Scanner)

/-- The literal of the comment is cleared, but its location is not. -/
def scanToken : Scanner :=
  let r := scanLoop s.supportPeriodInIdentifier (currentChar s.rest) s.rest
  { s with
    nextToken := r.1
    nextSkippedComment := r.2.getD { s.nextSkippedComment with literal := [] }
    rest := r.1.rest }

def next : Scanner :=
  scanToken { s with currentToken := s.nextToken, skippedComment := s.nextSkippedComment }

/-- Roll back to the current token, or to the comment in front of it. -/
def rescan : Scanner :=
  let rollbackTo :=
    if s.skippedComment.literal = [] then s.currentToken.start else s.skippedComment.start
  { s with rest := rollbackTo }.next.next

def setSupportPeriodInIdentifier (value : Bool) : Scanner :=
  { s with supportPeriodInIdentifier := value }.rescan

def reset (source : List Char) : Scanner :=
  { s with supportPeriodInIdentifier := false, rest := skipWhitespace source }.next.next

end Scanner

end Langutil
