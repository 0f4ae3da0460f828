import ChainScript.Yaml.Scalar

/-!
# Reading YAML

Documents are read with one character of lookahead and the column of each character, since the
columns of keys and dashes give block collections their extent. What the reader takes is the part of
the format that settings are written in: block and flow collections, plain and quoted scalars,
comments, explicit keys and document markers. Anything else is not a document. Every step consumes
text, so the length of the text bounds the reading.
-/

namespace ChainScript.Yaml

/-- The rest of a text, and the column that it begins in. -/
structure Cursor where
  rest : List Char
  column : Nat

namespace Cursor

/-- The cursor after the first few characters, all on one line. -/
def advance (c : Cursor) (n : Nat) : Cursor := ⟨c.rest.drop n, c.column + n⟩

/-- Whether the first character is the given one. -/
def startsWith (c : Cursor) (x : Char) : Bool := c.rest.head? == some x

end Cursor

/-- Whether a character separates tokens. The end of the text does too. -/
def isBreak : Option Char → Bool
  | none | some ' ' | some '\t' | some '\n' => true
  | _ => false

/-- Skips spaces, comments and line ends. The flag says whether a line end was passed. -/
def skipFrom : List Char → Nat → Bool → Bool → Cursor × Bool
  | [], column, passed, _ => (⟨[], column⟩, passed)
  | '\n' :: cs, _, _, _ => skipFrom cs 0 true false
  | _ :: cs, column, passed, true => skipFrom cs (column + 1) passed true
  | ' ' :: cs, column, passed, false => skipFrom cs (column + 1) passed false
  | '#' :: cs, column, passed, false => skipFrom cs (column + 1) passed true
  | cs, column, passed, false => (⟨cs, column⟩, passed)

/-- Skips to the next token. The flag says whether it is on another line. -/
def skip (c : Cursor) : Cursor × Bool := skipFrom c.rest c.column false false

/-- Skips spaces alone. -/
def skipSpaces (c : Cursor) : Cursor := c.advance (c.rest.takeWhile (· == ' ')).length

/-- Whether a document marker begins here. -/
def atMarker (c : Cursor) : Bool :=
  c.column == 0 && (["---", "..."].any fun marker =>
    marker.toList.isPrefixOf c.rest && isBreak c.rest[3]?)

/-- Whether the indicator stands here: the character, with a separator after it. -/
def atIndicator (c : Cursor) (x : Char) : Bool := c.startsWith x && isBreak c.rest[1]?

/-- Whether a plain scalar may begin here. -/
def plainBegins (flow : Bool) (c : Cursor) : Bool :=
  match c.rest with
  | [] => false
  | x :: rest =>
    !" \t\n-?:,[]\x7b\x7d#&*!|>\x27\"%@\x60".toList.contains x
      || (!isBreak rest.head? && (x == '-' || (!flow && (x == '?' || x == ':'))))

/-- Whether a plain scalar ends before the given characters. -/
def plainEnds (flow : Bool) : List Char → Bool
  | [] => true
  | x :: rest =>
    isBreak (some x)
      || (x == ':' && (isBreak rest.head?
          || (flow && (rest.head?.any fun y => ",[]\x7b\x7d".toList.contains y))))
      || (flow && ",?[]\x7b\x7d".toList.contains x)

/-- The characters of a plain scalar up to its next blank or its end. -/
def plainChunk (flow : Bool) : List Char → List Char
  | [] => []
  | x :: rest => if plainEnds flow (x :: rest) then [] else x :: plainChunk flow rest

/-- What a fold of line ends comes to: one is a space, and more are one line end fewer. -/
def foldedBreaks (count : Nat) : List Char :=
  if count ≤ 1 then [' '] else List.replicate (count - 1) '\n'

/-- Skips spaces and line ends, and counts the line ends. -/
def skipBreaks : List Char → Nat → Nat → Cursor × Nat
  | ' ' :: cs, column, count => skipBreaks cs (column + 1) count
  | '\n' :: cs, _, count => skipBreaks cs 0 (count + 1)
  | cs, column, count => (⟨cs, column⟩, count)

/-- Reads a plain scalar in chunks between blanks. A line continues it only from the given column
on. -/
def plain (flow : Bool) (least : Nat) : Nat → Cursor → List Char × Cursor
  | 0, c => ([], c)
  | fuel + 1, c =>
    let chunk := plainChunk flow c.rest
    let ends := c.advance chunk.length
    let (next, breaks) := skipBreaks ends.rest ends.column 0
    let blank := next.rest.length != ends.rest.length
    if chunk.isEmpty || !blank || next.startsWith '#' || next.rest.isEmpty
        || (breaks > 0 && (atMarker next || (!flow && next.column < least)))
        || plainEnds flow next.rest then
      (chunk, ends)
    else
      let (more, rest) := plain flow least fuel next
      let gap := if breaks = 0 then List.replicate (next.column - ends.column) ' '
        else foldedBreaks breaks
      (chunk ++ gap ++ more, rest)

/-- The character that an escape of one character denotes. -/
def escape? : Char → Option Char
  | '0' => some '\x00'
  | 'a' => some '\x07'
  | 'b' => some '\x08'
  | 't' => some '\t'
  | '\t' => some '\t'
  | 'n' => some '\n'
  | 'v' => some '\x0b'
  | 'f' => some '\x0c'
  | 'r' => some '\x0d'
  | 'e' => some '\x1b'
  | ' ' => some ' '
  | '\"' => some '\"'
  | '\\' => some '\\'
  | '/' => some '/'
  | 'N' => some '\u0085'
  | '_' => some '\u00a0'
  | 'L' => some '\u2028'
  | 'P' => some '\u2029'
  | _ => none

/-- The number of hexadecimal digits after an escape that gives a code point. -/
def codeLength? : Char → Option Nat
  | 'x' => some 2
  | 'u' => some 4
  | 'U' => some 8
  | _ => none

/-- Reads a quoted scalar after its opening quote. Blanks around line ends are folded. -/
def quotedScalar (quote : Char) : Nat → List Char → Cursor → Option (List Char × Cursor)
  | 0, _, _ => none
  | fuel + 1, read, c =>
    match c.rest with
    | [] => none
    | x :: rest =>
      if x == quote then
        if quote == '\x27' && rest.head? == some '\x27' then
          quotedScalar quote fuel ('\x27' :: read) (c.advance 2)
        else some (read.reverse, c.advance 1)
      else if x == ' ' || x == '\t' || x == '\n' then
        let blanks := c.rest.takeWhile fun y => y == ' ' || y == '\t'
        let after := c.advance blanks.length
        if after.startsWith '\n' then
          let (next, breaks) := skipBreaks after.rest after.column 0
          if atMarker next then none
          else quotedScalar quote fuel ((foldedBreaks breaks).reverse ++ read) next
        else quotedScalar quote fuel (blanks.reverse ++ read) after
      else if quote == '\"' && x == '\\' then
        match rest with
        | [] => none
        | '\n' :: _ =>
          let (next, breaks) := skipBreaks (rest.drop 1) 0 0
          quotedScalar quote fuel (List.replicate breaks '\n' ++ read) next
        | y :: more =>
          match escape? y, codeLength? y with
          | some z, _ => quotedScalar quote fuel (z :: read) (c.advance 2)
          | none, some n =>
            if (more.take n).length = n && (more.take n).all fun d => (digit? d).isSome then
              match inBase? 16 (more.take n) with
              | some code => quotedScalar quote fuel (Char.ofNat code :: read) (c.advance (2 + n))
              | none => none
            else none
          | none, none => none
      else quotedScalar quote fuel (x :: read) (c.advance 1)

/-- Whether a document can be the key of a mapping. -/
def isScalar : Yaml → Bool
  | .list _ | .mapping _ => false
  | _ => true

mutual

/-- Reads a scalar or a flow collection. -/
def flowNode (flow : Bool) (least : Nat) : Nat → Cursor → Option (Yaml × Cursor)
  | 0, _ => none
  | fuel + 1, c =>
    match c.rest with
    | '[' :: _ => flowList fuel [] (c.advance 1)
    | '\x7b' :: _ => flowMapping fuel [] (c.advance 1)
    | '\x27' :: rest =>
      (quotedScalar '\x27' (rest.length + 1) [] (c.advance 1)).map fun (s, c) =>
        (.str (String.ofList s), c)
    | '\"' :: rest =>
      (quotedScalar '\"' (rest.length + 1) [] (c.advance 1)).map fun (s, c) =>
        (.str (String.ofList s), c)
    | rest =>
      if plainBegins flow c then
        let (s, c) := plain flow least (rest.length + 1) c
        some (ofPlain (String.ofList s), c)
      else none

/-- Reads an entry of a flow collection: a node, or a key with its value. Where the node is missing
it is null, provided that an indicator tells of it. -/
def flowEntry : Nat → Cursor → Option ((Yaml × Option Yaml) × Cursor)
  | 0, _ => none
  | fuel + 1, c =>
    let explicit := atIndicator c '?'
    let c := if explicit then (skip (c.advance 1)).1 else c
    let atColon (c : Cursor) : Bool := c.startsWith ':'
    let atEnd (c : Cursor) : Bool := c.rest.head?.any fun x => ",]\x7d".toList.contains x
    let key := if atColon c && !plainBegins true c || explicit && atEnd c then some (.null, c)
      else flowNode true 0 fuel c
    match key with
    | none => none
    | some (key, c) =>
      let (c, _) := skip c
      if atColon c then
        let (c, _) := skip (c.advance 1)
        if atEnd c then some ((key, some .null), c)
        else (flowNode true 0 fuel c).map fun (v, c) => ((key, some v), c)
      else some ((key, if explicit then some .null else none), c)

/-- Reads the rest of a flow list, with the items before it in reverse. -/
def flowList : Nat → List Yaml → Cursor → Option (Yaml × Cursor)
  | 0, _, _ => none
  | fuel + 1, items, c =>
    let (c, _) := skip c
    if c.startsWith ']' then some (.list items.reverse, c.advance 1)
    else match flowEntry fuel c with
      | none => none
      | some ((key, v), c) =>
        let item := match v with
          | none => some key
          | some v => if key.isScalar then some (.mapping [(key, v)]) else none
        match item with
        | none => none
        | some item =>
          let (c, _) := skip c
          if c.startsWith ',' then flowList fuel (item :: items) (c.advance 1)
          else if c.startsWith ']' then some (.list (item :: items).reverse, c.advance 1)
          else none

/-- Reads the rest of a flow mapping, with the entries before it in reverse. -/
def flowMapping : Nat → List (Yaml × Yaml) → Cursor → Option (Yaml × Cursor)
  | 0, _, _ => none
  | fuel + 1, entries, c =>
    let (c, _) := skip c
    if c.startsWith '\x7d' then some (.mapping entries.reverse, c.advance 1)
    else match flowEntry fuel c with
      | none => none
      | some ((key, v), c) =>
        if !key.isScalar then none
        else
          let entries := (key, v.getD .null) :: entries
          let (c, _) := skip c
          if c.startsWith ',' then flowMapping fuel entries (c.advance 1)
          else if c.startsWith '\x7d' then some (.mapping entries.reverse, c.advance 1)
          else none

end

/-- Reads the key of a block mapping, if one begins here: a node on one line with a colon after it.
-/
def blockKey? (fuel : Nat) (c : Cursor) : Option (Yaml × Cursor) :=
  if atIndicator c ':' then some (.null, c.advance 1)
  else match flowNode false 0 fuel c with
    | none => none
    | some (key, after) =>
      let taken := c.rest.take (c.rest.length - after.rest.length)
      let after := skipSpaces after
      -- A key that goes on over a line end is none.
      if !taken.contains '\n' && atIndicator after ':' then some (key, after.advance 1) else none

mutual

/-- Reads a node that stands deeper than the given column. The flag says whether a block collection
may begin here. -/
def blockNode (outer : Int) (collections : Bool) : Nat → Cursor → Option (Yaml × Cursor)
  | 0, _ => none
  | fuel + 1, c =>
    if collections && atIndicator c '-' then blockList fuel c.column [] c
    else if collections && (atIndicator c '?' || (blockKey? fuel c).isSome) then
      blockMapping fuel c.column [] c
    else flowNode false (outer + 1).toNat fuel c

/-- Reads what follows the indicator of an entry whose collection stands in the given column: a node
on the same line, a block on lines further in, or nothing. Where it is allowed, a list may stand in
the same column. -/
def blockValue (column : Nat) (inline sameColumn : Bool) : Nat → Cursor → Option (Yaml × Cursor)
  | 0, _ => none
  | fuel + 1, c =>
    let (next, passed) := skip c
    if next.rest.isEmpty then some (.null, next)
    -- A value on the line of its key opens no mapping of its own, and no list.
    else if !passed then blockNode column inline fuel next
    else if atMarker next then some (.null, c)
    else if next.column > column then blockNode column true fuel next
    else if sameColumn && next.column = column && atIndicator next '-' then
      blockList fuel column [] next
    else some (.null, c)

/-- Reads the rest of a block list, with the items before it in reverse. -/
def blockList : Nat → Nat → List Yaml → Cursor → Option (Yaml × Cursor)
  | 0, _, _, _ => none
  | fuel + 1, column, items, c =>
    match blockValue column true false fuel (c.advance 1) with
    | none => none
    | some (item, c) =>
      let (next, passed) := skip c
      if next.rest.isEmpty || (passed && (atMarker next || next.column < column)) then
        some (.list (item :: items).reverse, c)
      else if passed && next.column = column then
        if atIndicator next '-' then blockList fuel column (item :: items) next
        else some (.list (item :: items).reverse, c)
      else none

/-- Reads the rest of a block mapping, with the entries before it in reverse. -/
def blockMapping : Nat → Nat → List (Yaml × Yaml) → Cursor → Option (Yaml × Cursor)
  | 0, _, _, _ => none
  | fuel + 1, column, entries, c =>
    let entry : Option ((Yaml × Yaml) × Cursor) :=
      if atIndicator c '?' then
        match blockValue column true true fuel (c.advance 1) with
        | none => none
        | some (key, c) =>
          let (next, passed) := skip c
          if passed && next.column = column && atIndicator next ':' then
            (blockValue column true true fuel (next.advance 1)).map fun (v, c) => ((key, v), c)
          else some ((key, .null), c)
      else match blockKey? fuel c with
        | none => none
        | some (key, c) =>
          (blockValue column false true fuel c).map fun (v, c) => ((key, v), c)
    match entry with
    | none => none
    | some ((key, v), c) =>
      if !key.isScalar then none
      else
        let entries := (key, v) :: entries
        let (next, passed) := skip c
        if next.rest.isEmpty || (passed && (atMarker next || next.column < column)) then
          some (.mapping entries.reverse, c)
        else if passed && next.column = column && !atIndicator next '-' then
          blockMapping fuel column entries next
        else none

end

/-- Whether the format allows a character at all. -/
def isAllowed (c : Char) : Bool :=
  let n := c.toNat
  n == 9 || n == 10 || n == 13 || (32 ≤ n && n ≤ 126) || n == 0x85 || (0xA0 ≤ n && n ≤ 0xFFFD)
    || 0x10000 ≤ n

/-- Line ends of every kind as line feeds. -/
def normalizeLines : List Char → List Char
  | '\r' :: '\n' :: cs => '\n' :: normalizeLines cs
  | '\r' :: cs => '\n' :: normalizeLines cs
  | '\u0085' :: cs => '\n' :: normalizeLines cs
  | c :: cs => c :: normalizeLines cs
  | [] => []

/-- Whether nothing but comments and end markers follows. -/
def isFinished : Nat → Cursor → Bool
  | 0, _ => false
  | fuel + 1, c =>
    let (c, passed) := skip c
    c.rest.isEmpty || (passed && atMarker c && c.startsWith '.' && isFinished fuel (c.advance 3))

/-- The text without the mark of the byte order that it may open with. -/
def dropByteOrderMark : List Char → List Char
  | '\ufeff' :: cs => cs
  | cs => cs

/-- Reads a text that holds one document, or none, which counts as null. -/
def read? (text : String) : Option Yaml :=
  let cs := dropByteOrderMark (normalizeLines text.toList)
  if !cs.all isAllowed then none
  else
    let fuel := 4 * cs.length + 16
    let start := (skip ⟨cs, 0⟩).1
    let opened := atMarker start && start.startsWith '-'
    let c := if opened then start.advance 3 else start
    let (next, passed) := skip c
    if next.rest.isEmpty || (atMarker next && next.startsWith '.') then
      if next.rest.isEmpty || isFinished fuel c then some .null else none
    else if atMarker next then none
    else match blockNode (-1) (!opened || passed) fuel next with
      | none => none
      | some (v, c) => if isFinished fuel c then some v else none

end ChainScript.Yaml
