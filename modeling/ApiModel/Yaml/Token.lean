import ApiModel.Text
/-!
# YAML tokens

The lexical level of YAML 1.2 in the block and flow styles.  Indentation becomes explicit
here: a deeper column opens a block collection, a shallower one closes it.  A key need not
be announced, so the scanner remembers where a key may have begun and, on meeting a colon,
puts the key token there afterwards.  A key of this kind has to stay on one line and within
1024 characters.
-/

namespace ApiModel.Yaml

/-- A lexical unit of a YAML text. -/
inductive Token where
  | versionDirective (major minor : Nat)
  | tagDirective (handle expansion : String)
  | documentStart
  | documentEnd
  | blockSequenceStart
  | blockMappingStart
  | blockEnd
  | flowSequenceStart
  | flowSequenceEnd
  | flowMappingStart
  | flowMappingEnd
  | blockEntry
  | flowEntry
  | key
  | value
  | alias (name : String)
  | anchor (name : String)
  | tag (handle suffix : String)
  | plain (text : String)
  | quoted (text : String)
deriving DecidableEq, Repr, Inhabited

/-- A place in the text: what is left of it, and where this is. -/
structure Cursor where
  rest : List Char
  index : Nat := 0
  line : Nat := 0
  column : Nat := 0

namespace Character

/-- Line breaks. -/
def isBreak (c : Char) : Bool :=
  c == '\n' || c == '\r' || c == '\u0085' || c == '\u2028' || c == '\u2029'

/-- Spaces and tabs. -/
def isBlank (c : Char) : Bool :=
  c == ' ' || c == '\t'

/-- Letters of names. -/
def isWord (c : Char) : Bool :=
  c.isAlphanum || c == '_' || c == '-'

/-- Characters that a tag may hold outside angle brackets. -/
def isTag (c : Char) : Bool :=
  isWord c || ";/?:@&=+$.%!~*'()".toList.contains c

/-- Characters that a text may hold. -/
def isAllowed (c : Char) : Bool :=
  let n := c.toNat
  n == 9 || n == 10 || n == 13 || (0x20 ≤ n && n ≤ 0x7E) || n == 0x85 ||
    (0xA0 ≤ n && n ≤ 0xD7FF) || (0xE000 ≤ n && n ≤ 0xFFFD) || 0x10000 ≤ n

end Character

namespace Cursor

open Character

/-- The character a number of places ahead. -/
def at? (c : Cursor) (n : Nat) : Option Char :=
  c.rest[n]?

/-- Whether the text is over. -/
def atEnd (c : Cursor) : Bool :=
  c.rest.isEmpty

/-- Whether a character stands a number of places ahead. -/
def has (c : Cursor) (n : Nat) (x : Char) : Bool :=
  c.at? n == some x

/-- Whether a space or tab is next. -/
def atBlank (c : Cursor) : Bool :=
  (c.at? 0).any isBlank

/-- Whether a line break is next. -/
def atBreak (c : Cursor) : Bool :=
  (c.at? 0).any isBreak

/-- Whether the line is over some places ahead. -/
def breakOrEndAt (c : Cursor) (n : Nat) : Bool :=
  (c.at? n).all isBreak

/-- Whether a word is over some places ahead. -/
def gapAt (c : Cursor) (n : Nat) : Bool :=
  (c.at? n).all fun x => isBlank x || isBreak x

/-- Goes over one character that is no line break. -/
def advance (c : Cursor) : Cursor :=
  match c.rest with
  | [] => c
  | _ :: rest => { c with rest := rest, index := c.index + 1, column := c.column + 1 }

/-- Goes over some characters of one line. -/
def advanceBy (c : Cursor) (n : Nat) : Cursor :=
  { c with rest := c.rest.drop n, index := c.index + n, column := c.column + n }

/-- Goes over a line break, if one is next, and gives its text: all but the line and
paragraph separators of Unicode read as a newline. -/
def takeBreak (c : Cursor) : List Char × Cursor :=
  match c.rest with
  | '\r' :: '\n' :: rest =>
    (['\n'], { rest := rest, index := c.index + 2, line := c.line + 1, column := 0 })
  | x :: rest =>
    if isBreak x then
      (if x == '\u2028' || x == '\u2029' then [x] else ['\n'],
        { rest := rest, index := c.index + 1, line := c.line + 1, column := 0 })
    else ([], c)
  | [] => ([], c)

/-- Goes over the characters of a class, which holds no line break. -/
def skipWhile (c : Cursor) (p : Char → Bool) : Cursor :=
  c.advanceBy (c.rest.takeWhile p).length

/-- Takes the characters of a class, which holds no line break. -/
def takeWhile (c : Cursor) (p : Char → Bool) : List Char × Cursor :=
  let taken := c.rest.takeWhile p
  (taken, c.advanceBy taken.length)

/-- Goes over a comment, if one starts here. -/
def skipComment (c : Cursor) : Cursor :=
  if c.has 0 '#' then c.skipWhile (!isBreak ·) else c

/-- Whether a line of three dashes or dots marks the border of a document here. -/
def atDocumentMark (c : Cursor) : Bool :=
  c.column == 0 &&
    (c.rest.take 3 == ['-', '-', '-'] || c.rest.take 3 == ['.', '.', '.']) && c.gapAt 3

end Cursor

/-- Where an unannounced key may have begun. -/
structure PossibleKey where
  /-- Whether only a key can stand there. -/
  required : Bool
  /-- How many tokens come before it. -/
  position : Nat
  index : Nat
  line : Nat
  column : Nat

/-- The state of the scanner. -/
structure Scanner where
  cursor : Cursor
  /-- More than the number of characters of the text: no loop over it runs longer. -/
  bound : Nat
  tokens : Array Token := #[]
  /-- The column of the open block collection, `none` outside of all. -/
  indent : Option Nat := none
  /-- The columns of the block collections around it. -/
  outer : List (Option Nat) := []
  /-- The possible key of each open flow collection, innermost first, and of the block
  level at the end. -/
  keys : List (Option PossibleKey) := [none]
  flowLevel : Nat := 0
  keyAllowed : Bool := true

namespace Scanner

open Character

/-- Whether the open block collection stands at an earlier column. -/
def indentBefore (s : Scanner) (column : Nat) : Bool :=
  s.indent.all (· < column)

/-- Forgets the keys that have become too long or have run over their line; fails when one
of them was required. -/
def dropStaleKeys (s : Scanner) : Option Scanner := do
  let keys ← s.keys.mapM fun key? =>
    match key? with
    | some key =>
      if key.line < s.cursor.line || key.index + 1024 < s.cursor.index then
        if key.required then none else some none
      else some (some key)
    | none => some none
  return { s with keys := keys }

/-- Gives up the possible key of the current level; fails when it was required. -/
def dropKey (s : Scanner) : Option Scanner :=
  match s.keys with
  | some key :: keys => if key.required then none else some { s with keys := none :: keys }
  | _ => some s

/-- Remembers that a key may begin here. -/
def saveKey (s : Scanner) : Option Scanner := do
  if !s.keyAllowed then return s
  let s ← s.dropKey
  let key : PossibleKey := {
    required := s.flowLevel == 0 && s.indent == some s.cursor.column
    position := s.tokens.size
    index := s.cursor.index
    line := s.cursor.line
    column := s.cursor.column }
  return { s with keys := some key :: s.keys.drop 1 }

/-- Opens a block collection at a column, if the column is deeper; its token goes to a
position or to the end. -/
def openBlock (s : Scanner) (column : Nat) (position : Option Nat) (t : Token) : Scanner :=
  if s.flowLevel == 0 && s.indentBefore column then
    let tokens := match position with
      | some i => s.tokens.insertIdxIfInBounds i t
      | none => s.tokens.push t
    { s with outer := s.indent :: s.outer, indent := some column, tokens := tokens }
  else s

/-- Closes the block collections deeper than a column: all of them for `none`. -/
def closeBlocks (s : Scanner) (column : Option Nat) : Scanner :=
  if s.flowLevel == 0 then go s (s.outer.length + 1) else s
where
  go (s : Scanner) : Nat → Scanner
    | 0 => s
    | fuel + 1 =>
      match s.indent with
      | none => s
      | some indent =>
        if column.all (· < indent) then
          go { s with
            tokens := s.tokens.push .blockEnd
            indent := s.outer.head?.join
            outer := s.outer.drop 1 } fuel
        else s

/-- Goes over blanks, comments and line breaks.  A tab is no indentation, so it is passed
only where no key may begin. -/
def skipToToken (s : Scanner) : Nat → Scanner
  | 0 => s
  | fuel + 1 =>
    let tabs := s.flowLevel != 0 || !s.keyAllowed
    let cursor := s.cursor.skipWhile fun c => c == ' ' || (tabs && c == '\t')
    let cursor := cursor.skipComment
    if cursor.atBreak then
      skipToToken { s with
        cursor := cursor.takeBreak.2
        keyAllowed := s.flowLevel == 0 || s.keyAllowed } fuel
    else { s with cursor := cursor }

/-- Joins the two sides of line breaks: a single newline is a space, further breaks stay. -/
def foldBreaks (leading trailing : List Char) : List Char :=
  if leading == ['\n'] then (if trailing.isEmpty then [' '] else trailing)
  else leading ++ trailing

/-- Blanks and line breaks between two words of a scalar. -/
structure Gap where
  blanks : List Char := []
  leading : List Char := []
  trailing : List Char := []
  broken : Bool := false

/-- What a gap stands for. -/
def Gap.text (g : Gap) : List Char :=
  if g.broken then foldBreaks g.leading g.trailing else g.blanks

/-- Reads blanks and line breaks.  Inside block collections a tab may not take part in the
indentation of a continued plain scalar: `least` is the column from which it may stand. -/
def readGap (least : Nat) (g : Gap) (c : Cursor) : Nat → Option (Gap × Cursor)
  | 0 => none
  | fuel + 1 =>
    match c.rest with
    | [] => some (g, c)
    | x :: _ =>
      if isBlank x then
        if g.broken then
          if x == '\t' && c.column < least then none else readGap least g c.advance fuel
        else readGap least { g with blanks := g.blanks ++ [x] } c.advance fuel
      else if isBreak x then
        let (text, c) := c.takeBreak
        if g.broken then readGap least { g with trailing := g.trailing ++ text } c fuel
        else readGap least { g with leading := text, broken := true } c fuel
      else some (g, c)

/-- The characters of one word of a plain scalar, in reverse. -/
def plainWord (flow : Bool) (reversed : List Char) (c : Cursor) :
    Nat → Option (List Char × Cursor)
  | 0 => none
  | fuel + 1 =>
    match c.rest with
    | [] => some (reversed, c)
    | x :: _ =>
      if isBlank x || isBreak x then some (reversed, c)
      else if flow && x == ':' && (c.at? 1).any (",?[]\x7b\x7d".toList.contains ·) then none
      else if (x == ':' && c.gapAt 1) || (flow && ",[]\x7b\x7d".toList.contains x) then
        some (reversed, c)
      else plainWord flow (x :: reversed) c.advance fuel

/-- Reads a plain scalar: its text in reverse, the place after it, and whether it ended
after a line break. -/
def plainScalar (s : Scanner) (reversed : List Char) (gap : Gap) (c : Cursor) :
    Nat → Option (List Char × Cursor × Bool)
  | 0 => none
  | fuel + 1 =>
    let least := match s.indent with
      | some indent => indent + 1
      | none => 0
    if c.atDocumentMark || c.has 0 '#' then some (reversed, c, gap.broken)
    else
      let flow := s.flowLevel != 0
      match plainWord flow [] c s.bound with
      | none => none
      | some (word, after) =>
        let reversed' :=
          if word.isEmpty then reversed else word ++ gap.text.reverse ++ reversed
        let gap := if word.isEmpty then gap else {}
        if !(after.atBlank || after.atBreak) then some (reversed', after, gap.broken)
        else
          match readGap least gap after s.bound with
          | none => none
          | some (gap, next) =>
            if !flow && next.column < least then some (reversed', next, gap.broken)
            else plainScalar s reversed' gap next fuel

/-- What an escape in double quotes stands for: a character, or the number of hexadecimal
digits that follow. -/
def escape? (c : Char) : Option (Char ⊕ Nat) :=
  match c with
  | '0' => some (.inl '\x00')
  | 'a' => some (.inl '\x07')
  | 'b' => some (.inl '\x08')
  | 't' => some (.inl '\t')
  | '\t' => some (.inl '\t')
  | 'n' => some (.inl '\n')
  | 'v' => some (.inl '\x0b')
  | 'f' => some (.inl '\x0c')
  | 'r' => some (.inl '\r')
  | 'e' => some (.inl '\x1b')
  | ' ' => some (.inl ' ')
  | '"' => some (.inl '"')
  | '/' => some (.inl '/')
  | '\\' => some (.inl '\\')
  | 'N' => some (.inl '\u0085')
  | '_' => some (.inl '\u00a0')
  | 'L' => some (.inl '\u2028')
  | 'P' => some (.inl '\u2029')
  | 'x' => some (.inr 2)
  | 'u' => some (.inr 4)
  | 'U' => some (.inr 8)
  | _ => none

/-- Reads one word of a quoted scalar up to a blank, a line break or the closing quote: its
characters in reverse, the place after it, and whether it ended with an escaped break. -/
def quotedWord (single : Bool) (reversed : List Char) (c : Cursor) :
    Nat → Option (List Char × Cursor × Bool)
  | 0 => none
  | fuel + 1 =>
    match c.rest with
    | [] => some (reversed, c, false)
    | '\'' :: '\'' :: _ =>
      if single then quotedWord single ('\'' :: reversed) (c.advanceBy 2) fuel
      else quotedWord single ('\'' :: reversed) c.advance fuel
    | x :: _ =>
      if isBlank x || isBreak x || x == (if single then '\'' else '"') then
        some (reversed, c, false)
      else if !single && x == '\\' then
        let c := c.advance
        if c.atBreak then some (reversed, c.takeBreak.2, true)
        else
          match (c.at? 0).bind escape? with
          | none => none
          | some (.inl e) => quotedWord single (e :: reversed) c.advance fuel
          | some (.inr n) =>
            let c := c.advance
            match Text.digits? 16 (c.rest.take n) with
            | some code =>
              if (c.rest.take n).length == n && !(0xD800 ≤ code && code ≤ 0xDFFF) &&
                  code ≤ 0x10FFFF then
                quotedWord single (Char.ofNat code :: reversed) (c.advanceBy n) fuel
              else none
            | none => none
      else quotedWord single (x :: reversed) c.advance fuel

/-- Reads a quoted scalar after its opening quote, its text in reverse. -/
def quotedScalar (single : Bool) (bound : Nat) (reversed : List Char) (c : Cursor) :
    Nat → Option (List Char × Cursor)
  | 0 => none
  | fuel + 1 =>
    if c.atDocumentMark || c.atEnd then none
    else
      match quotedWord single reversed c bound with
      | none => none
      | some (reversed, c, escaped) =>
        if !escaped && c.has 0 (if single then '\'' else '"') then some (reversed, c.advance)
        else
          match readGap 0 { broken := escaped } c bound with
          | none => none
          | some (gap, c) => quotedScalar single bound (gap.text.reverse ++ reversed) c fuel

/-- The header of a block scalar: what happens to the line breaks at its end, and its
indentation if it is given. -/
structure BlockHeader where
  strip : Bool := false
  keep : Bool := false
  increment : Option Nat := none

/-- Reads the header of a block scalar. -/
def blockHeader (c : Cursor) : Option (BlockHeader × Cursor) :=
  let chomp (h : BlockHeader) (c : Cursor) : BlockHeader × Cursor :=
    if c.has 0 '+' then ({ h with keep := true }, c.advance)
    else if c.has 0 '-' then ({ h with strip := true }, c.advance)
    else (h, c)
  let digit (h : BlockHeader) (c : Cursor) : Option (BlockHeader × Cursor) :=
    match c.at? 0 with
    | some x =>
      if x.isDigit then
        if x == '0' then none
        else some ({ h with increment := some (x.toNat - '0'.toNat) }, c.advance)
      else some (h, c)
    | none => some (h, c)
  if c.has 0 '+' || c.has 0 '-' then
    let (h, c) := chomp {} c
    digit h c
  else (digit {} c).map fun (h, c) => if h.increment.isSome then chomp h c else (h, c)

/-- Reads the empty lines in front of a line of a block scalar.  While the indentation is
unknown (zero), the deepest column met counts. -/
def blockBreaks (indent deepest : Nat) (breaks : List Char) (c : Cursor) :
    Nat → Option (Nat × List Char × Cursor)
  | 0 => none
  | fuel + 1 =>
    let spaces := c.rest.takeWhile (· == ' ')
    let c := c.advanceBy
      (if indent == 0 then spaces.length else min spaces.length (indent - c.column))
    let deepest := max deepest c.column
    if (indent == 0 || c.column < indent) && c.has 0 '\t' then none
    else if c.atBreak then
      let (text, c) := c.takeBreak
      blockBreaks indent deepest (breaks ++ text) c fuel
    else some (deepest, breaks, c)

/-- Reads the lines of a block scalar, its text in reverse. -/
def blockLines (literal : Bool) (bound indent : Nat) (reversed leading trailing : List Char)
    (leadingBlank : Bool) (c : Cursor) :
    Nat → Option (List Char × List Char × List Char × Cursor)
  | 0 => none
  | fuel + 1 =>
    if c.column == indent && !c.atEnd then
      let trailingBlank := c.atBlank
      let joined :=
        if !literal && leading.head? == some '\n' && !leadingBlank && !trailingBlank then
          (if trailing.isEmpty then [' '] else [])
        else leading
      let (line, c) := c.takeWhile (!isBreak ·)
      let reversed := line.reverse ++ trailing.reverse ++ joined.reverse ++ reversed
      let (leading, c) := c.takeBreak
      match blockBreaks indent 0 [] c bound with
      | none => none
      | some (_, trailing, c) =>
        blockLines literal bound indent reversed leading trailing trailingBlank c fuel
    else some (reversed, leading, trailing, c)

/-- Reads a block scalar after its indicator. -/
def blockScalar (s : Scanner) (literal : Bool) (c : Cursor) : Option (List Char × Cursor) := do
  let (header, c) ← blockHeader c
  let c := (c.skipWhile isBlank).skipComment
  if !c.breakOrEndAt 0 then none
  else
    let c := c.takeBreak.2
    let base := match s.indent with
      | some indent => indent
      | none => 0
    let given := match header.increment with
      | some n => base + n
      | none => 0
    let (deepest, breaks, c) ← blockBreaks given 0 [] c s.bound
    let least := match s.indent with
      | some indent => indent + 1
      | none => 0
    let indent := if given == 0 then max 1 (max deepest least) else given
    let (reversed, leading, trailing, c) ←
      blockLines literal s.bound indent [] [] breaks false c s.bound
    let text := reversed.reverse
    return (text ++ (if header.strip then [] else leading) ++
      (if header.keep then trailing else []), c)

/-- Reads the name of an anchor or alias after its indicator. -/
def anchorName (c : Cursor) : Option (String × Cursor) :=
  let (name, c) := c.takeWhile isWord
  if name.isEmpty || !(c.gapAt 0 || (c.at? 0).any ("?:,]\x7d%@`".toList.contains ·)) then none
  else some (String.ofList name, c)

/-- Undoes the percent escapes of a tag. -/
def unescapeTag : List Char → List Nat → Option (List Nat)
  | '%' :: a :: b :: rest, bytes =>
    match Text.digits? 16 [a, b] with
    | some n => unescapeTag rest (n :: bytes)
    | none => none
  | '%' :: _, _ => none
  | c :: rest, bytes =>
    unescapeTag rest (((String.singleton c).toUTF8.toList.map UInt8.toNat).reverse ++ bytes)
  | [], bytes => some bytes.reverse

/-- The text that a tag spells. -/
def tagText? (cs : List Char) : Option String := do
  let bytes ← unescapeTag cs []
  String.fromUTF8? (ByteArray.mk (bytes.map UInt8.ofNat).toArray)

/-- Reads a tag after its exclamation mark: the handle and the suffix. -/
def tagParts (s : Scanner) (c : Cursor) : Option (String × String × Cursor) := do
  let (handle, suffix, c) ←
    if c.has 0 '<' then do
      let (uri, c) := c.advance.takeWhile fun x => isTag x || ",[]".toList.contains x
      let uri ← tagText? uri
      if uri.isEmpty || !c.has 0 '>' then none else some ("", uri, c.advance)
    else
      let (name, after) := c.takeWhile isWord
      if after.has 0 '!' then do
        let (uri, c) := after.advance.takeWhile isTag
        let uri ← tagText? uri
        if uri.isEmpty then none else some ("!" ++ String.ofList name ++ "!", uri, c)
      else do
        let (more, c) := after.takeWhile isTag
        let uri ← tagText? (name ++ more)
        some (if uri.isEmpty then ("", "!", c) else ("!", uri, c))
  if c.gapAt 0 || (s.flowLevel != 0 && c.has 0 ',') then some (handle, suffix, c) else none

/-- Reads a directive after its percent sign. -/
def directive (c : Cursor) : Option (Token × Cursor) := do
  let (name, c) := c.takeWhile isWord
  if !c.gapAt 0 then none
  else
    let c := c.skipWhile isBlank
    let (token, c) ← match String.ofList name with
      | "YAML" => do
        let (major, c) := c.takeWhile Char.isDigit
        let major' ← Text.digits? 10 major
        if major.length > 9 || !c.has 0 '.' then none
        else
          let (minor, c) := c.advance.takeWhile Char.isDigit
          let minor' ← Text.digits? 10 minor
          if minor.length > 9 then none else some (.versionDirective major' minor', c)
      | "TAG" => do
        let (handle, c) ←
          if c.has 0 '!' then
            let (word, after) := c.advance.takeWhile isWord
            if after.has 0 '!' then some ('!' :: word ++ ['!'], after.advance)
            else if word.isEmpty then some (['!'], after)
            else none
          else none
        if !c.atBlank then none
        else
          let isUri (x : Char) : Bool := isTag x || ",[]".toList.contains x
          let (uri, c) := (c.skipWhile isBlank).takeWhile isUri
          let uri ← tagText? uri
          if uri.isEmpty || !c.gapAt 0 then none
          else some (.tagDirective (String.ofList handle) uri, c)
      | _ => none
    let c := (c.skipWhile isBlank).skipComment
    if !c.breakOrEndAt 0 then none else some (token, c.takeBreak.2)

/-- Whether a plain scalar may start here. -/
def startsPlain (s : Scanner) : Bool :=
  let c := s.cursor
  match c.at? 0 with
  | none => false
  | some x =>
    let indicators := "-?:,[]\x7b\x7d#&*!|>'\"%@`".toList
    !(isBlank x || isBreak x || indicators.contains x) ||
      (x == '-' && !(c.at? 1).any isBlank) ||
      (s.flowLevel == 0 && (x == '?' || x == ':') && !c.gapAt 1)

/-- Ends the current run of keys before a directive or the border of a document. -/
def leaveDocument (s : Scanner) : Option Scanner := do
  let s ← (s.closeBlocks none).dropKey
  return { s with keyAllowed := false }

/-- The token of an indicator that opens a flow collection. -/
def openFlow (s : Scanner) (t : Token) : Option Scanner := do
  let s ← s.saveKey
  return { s with
    keys := none :: s.keys
    flowLevel := s.flowLevel + 1
    keyAllowed := true
    cursor := s.cursor.advance
    tokens := s.tokens.push t }

/-- The token of an indicator that closes a flow collection. -/
def closeFlow (s : Scanner) (t : Token) : Option Scanner := do
  let s ← s.dropKey
  let s := if s.flowLevel == 0 then s
    else { s with flowLevel := s.flowLevel - 1, keys := s.keys.drop 1 }
  return { s with keyAllowed := false, cursor := s.cursor.advance, tokens := s.tokens.push t }

/-- The token of a dash. -/
def blockEntry (s : Scanner) : Option Scanner := do
  if s.flowLevel == 0 && !s.keyAllowed then none
  else
    let s := s.openBlock s.cursor.column none .blockSequenceStart
    let s ← s.dropKey
    return { s with
      keyAllowed := true, cursor := s.cursor.advance, tokens := s.tokens.push .blockEntry }

/-- The token of a question mark. -/
def announcedKey (s : Scanner) : Option Scanner := do
  if s.flowLevel == 0 && !s.keyAllowed then none
  else
    let s := s.openBlock s.cursor.column none .blockMappingStart
    let s ← s.dropKey
    return { s with
      keyAllowed := s.flowLevel == 0
      cursor := s.cursor.advance
      tokens := s.tokens.push .key }

/-- The token of a colon: it makes a key of what began at the possible key. -/
def mappingValue (s : Scanner) : Option Scanner :=
  match s.keys with
  | some key :: keys =>
    let tokens := s.tokens.insertIdxIfInBounds key.position .key
    let s := { s with keys := none :: keys, tokens := tokens }
    let s := s.openBlock key.column (some key.position) .blockMappingStart
    some { s with
      keyAllowed := false, cursor := s.cursor.advance, tokens := s.tokens.push .value }
  | _ =>
    if s.flowLevel == 0 && !s.keyAllowed then none
    else
      let s := s.openBlock s.cursor.column none .blockMappingStart
      some { s with
        keyAllowed := s.flowLevel == 0
        cursor := s.cursor.advance
        tokens := s.tokens.push .value }

/-- Takes the next token.  The state after the last one is marked by `true`. -/
def next (s : Scanner) : Option (Scanner × Bool) := do
  let s ← (s.skipToToken s.bound).dropStaleKeys
  let s := s.closeBlocks (some s.cursor.column)
  let c := s.cursor
  let more (s : Scanner) : Scanner × Bool := (s, false)
  match c.at? 0 with
  | none =>
    let s ← (s.closeBlocks none).dropKey
    return (s, true)
  | some x =>
    if c.column == 0 && x == '%' then
      let s ← s.leaveDocument
      let (t, c) ← directive c.advance
      return more { s with cursor := c, tokens := s.tokens.push t }
    else if c.atDocumentMark then
      let s ← s.leaveDocument
      let t := if x == '-' then Token.documentStart else .documentEnd
      return more { s with cursor := c.advanceBy 3, tokens := s.tokens.push t }
    else if x == '[' then more <$> s.openFlow .flowSequenceStart
    else if x == '\x7b' then more <$> s.openFlow .flowMappingStart
    else if x == ']' then more <$> s.closeFlow .flowSequenceEnd
    else if x == '\x7d' then more <$> s.closeFlow .flowMappingEnd
    else if x == ',' then
      let s ← s.dropKey
      return more { s with
        keyAllowed := true, cursor := c.advance, tokens := s.tokens.push .flowEntry }
    else if x == '-' && c.gapAt 1 then more <$> s.blockEntry
    else if x == '?' && (s.flowLevel != 0 || c.gapAt 1) then more <$> s.announcedKey
    else if x == ':' && (s.flowLevel != 0 || c.gapAt 1) then more <$> s.mappingValue
    else if x == '*' || x == '&' then
      let s ← s.saveKey
      let (name, c) ← anchorName c.advance
      let t := if x == '*' then Token.alias name else .anchor name
      return more { s with keyAllowed := false, cursor := c, tokens := s.tokens.push t }
    else if x == '!' then
      let s ← s.saveKey
      let (handle, suffix, c) ← s.tagParts c.advance
      return more { s with
        keyAllowed := false, cursor := c, tokens := s.tokens.push (.tag handle suffix) }
    else if (x == '|' || x == '>') && s.flowLevel == 0 then
      let s ← s.dropKey
      let (text, c) ← s.blockScalar (x == '|') c.advance
      return more { s with
        keyAllowed := true, cursor := c, tokens := s.tokens.push (.quoted (String.ofList text)) }
    else if x == '\'' || x == '"' then
      let s ← s.saveKey
      let (text, c) ← quotedScalar (x == '\'') s.bound [] c.advance s.bound
      return more { s with
        keyAllowed := false
        cursor := c
        tokens := s.tokens.push (.quoted (String.ofList text.reverse)) }
    else if s.startsPlain then
      let s ← s.saveKey
      let (text, c, broken) ← s.plainScalar [] {} c s.bound
      return more { s with
        keyAllowed := broken
        cursor := c
        tokens := s.tokens.push (.plain (String.ofList text.reverse)) }
    else none

/-- Takes all tokens. -/
def run (s : Scanner) : Nat → Option (Array Token)
  | 0 => none
  | fuel + 1 =>
    match s.next with
    | none => none
    | some (s, true) => some s.tokens
    | some (s, false) => run s fuel

end Scanner

/-- The tokens of a YAML text; `none` when it is no YAML. -/
def Token.scan? (text : String) : Option (List Token) :=
  let cursor : Cursor := match text.toList with
    | '\ufeff' :: rest => { rest := rest, index := 1, column := 1 }
    | cs => { rest := cs }
  if cursor.rest.all Character.isAllowed then
    let bound := cursor.rest.length + 2
    (Scanner.run { cursor := cursor, bound := bound } bound).map Array.toList
  else none

end ApiModel.Yaml
