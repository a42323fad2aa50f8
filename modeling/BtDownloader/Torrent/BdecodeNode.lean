import BtDownloader.Torrent.BdecodeSound
import BtDownloader.Torrent.Entry

set_option autoImplicit false

/-! # Reading a decoded tree

A `bdecode_node` is a place in the token array, and its accessors walk over the tokens and read
the buffer. The results are `none` where an accessor would leave the token array or the buffer.
What a node remembers of earlier lookups is its `Lookups`; `listAt` and `dictAt` go on from
there.
-/

namespace BtDownloader

open Bencoding

/-- `bdecode_node`, other than one made by `bdecode_node()`. -/
structure BdecodeNode where
  tokens : List BdecodeToken
  buffer : Bytes
  tokenIdx : Nat
deriving DecidableEq, Repr

/-- `m_last_index`, `m_last_token` and `m_size`. -/
structure Lookups where
  lastIndex : Option Nat := none
  lastToken : Nat := 0
  size : Option Nat := none
deriving DecidableEq, Repr

/-- `bdecode_token::start_offset`. -/
def BdecodeToken.startOffset (t : BdecodeToken) : Nat := t.header + 2

/-- The node `bdecode` returns for a buffer. -/
def BdecodeRoot.node (root : BdecodeRoot) (buffer : Bytes) : BdecodeNode where
  tokens := root.tokens
  buffer := buffer
  tokenIdx := 0

namespace BdecodeNode

/-- Bytes of the buffer. -/
def bytes (n : BdecodeNode) (start length : Nat) : Option Bytes :=
  if start + length ≤ n.buffer.length then some ((n.buffer.drop start).take length) else none

def type (n : BdecodeNode) : Option TokenType := (n.tokens[n.tokenIdx]?).map (·.type)

/-- The node of another token of the tree. -/
def goto (n : BdecodeNode) (token : Nat) : BdecodeNode := { n with tokenIdx := token }

/-! ## Values -/

/-- `string_value`: what is between the header and the next token. -/
def stringValue (n : BdecodeNode) : Option Bytes := do
  let t ← n.tokens[n.tokenIdx]?
  let next ← n.tokens[n.tokenIdx + 1]?
  let start := t.offset + t.startOffset
  if start ≤ next.offset then n.bytes start (next.offset - start) else none

/-- `int_value`. A number that is too large is read as `0`. -/
def intValue (n : BdecodeNode) : Option Int := do
  let t ← n.tokens[n.tokenIdx]?
  let next ← n.tokens[n.tokenIdx + 1]?
  let size := next.offset - t.offset
  let first ← n.buffer[t.offset + 1]?
  let sign := if first = byte '-' then 1 else 0
  let text := (n.buffer.drop (t.offset + 1 + sign)).take (size - sign)
  let (length, val, ec) := parseInt (byte 'e') text 0
  if length = text.length ∧ text.length < size - sign then none
  else if ec.isSome then some 0
  else some (if first = byte '-' then -val else val)

/-- `data_section`: the text of the whole item. -/
def dataSection (n : BdecodeNode) : Option Bytes := do
  let t ← n.tokens[n.tokenIdx]?
  let next ← n.tokens[n.tokenIdx + t.nextItem]?
  n.bytes t.offset (next.offset - t.offset)

/-! ## Lists and dictionaries by position -/

/-- Go over items, each time to the token that the current one points to. -/
def skip (n : BdecodeNode) : Nat → Nat → Option Nat
  | 0, token => some token
  | k + 1, token => do
      let t ← n.tokens[token]?
      n.skip k (token + t.nextItem)

/-- The number of tokens up to the end of the container, following `next_item`. There are fewer
rounds than tokens. -/
def countFrom (n : BdecodeNode) : Nat → Nat → Nat → Option Nat
  | 0, _, _ => none
  | rounds + 1, token, ret => do
      let t ← n.tokens[token]?
      if t.type = .end then some ret else n.countFrom rounds (token + t.nextItem) (ret + 1)

/-- Where the lookup of an index starts: at the last one, unless it is a later one. -/
def lookupStart (n : BdecodeNode) (c : Lookups) (i : Nat) : Nat × Nat :=
  match c.lastIndex with
  | some last => if last ≤ i then (c.lastToken, last) else (n.tokenIdx + 1, 0)
  | none => (n.tokenIdx + 1, 0)

/-- Where the items are counted from, and how many there are before. -/
def sizeStart (n : BdecodeNode) (c : Lookups) : Nat × Nat :=
  match c.lastIndex with
  | some last => (c.lastToken, last)
  | none => (n.tokenIdx + 1, 0)

/-- `list_at`, with the lookups after it. -/
def listAt (n : BdecodeNode) (c : Lookups) (i : Nat) : Option (BdecodeNode × Lookups) := do
  let (token, item) := n.lookupStart c i
  let token ← n.skip (i - item) token
  some (n.goto token, { c with lastIndex := some i, lastToken := token })

/-- `list_size`. -/
def listSize (n : BdecodeNode) (c : Lookups) : Option (Nat × Lookups) :=
  match c.size with
  | some size => some (size, c)
  | none => do
      let (token, ret) := n.sizeStart c
      let ret ← n.countFrom n.tokens.length token ret
      some (ret, { c with size := some ret })

/-- `dict_at`. The first item is not remembered. -/
def dictAt (n : BdecodeNode) (c : Lookups) (i : Nat) :
    Option ((Bytes × BdecodeNode) × Lookups) := do
  let (token, item) := n.lookupStart c i
  let token ← n.skip (2 * (i - item)) token
  let c := if 0 < i then { c with lastIndex := some i, lastToken := token } else c
  let t ← n.tokens[token]?
  let key ← (n.goto token).stringValue
  some ((key, n.goto (token + t.nextItem)), c)

/-- `dict_size`. -/
def dictSize (n : BdecodeNode) (c : Lookups) : Option (Nat × Lookups) :=
  match c.size with
  | some size => some (size, c)
  | none => do
      let (token, ret) := n.sizeStart c
      let ret ← n.countFrom n.tokens.length token (ret * 2)
      some (ret / 2, { c with size := some (ret / 2) })

/-- What `list_string_value_at` makes of an item, without a default. -/
def stringValueOrEmpty (n : BdecodeNode) : Option Bytes :=
  if n.type = some .string then n.stringValue else some []

/-- What `list_int_value_at` makes of an item. -/
def intValueOr (n : BdecodeNode) (default : Int) : Option Int :=
  if n.type = some .integer then n.intValue else some default

/-! ## Dictionaries by key -/

/-- The string at a token is the key; its bytes are compared only where the sizes agree. -/
def isKey (n : BdecodeNode) (key : Bytes) (token : Nat) : Option Bool := do
  let t ← n.tokens[token]?
  let next ← n.tokens[token + 1]?
  let start := t.offset + t.startOffset
  if start + key.length = next.offset then
    let s ← n.bytes start key.length
    some (s = key)
  else some false

/-- The loop of `dict_find`. -/
def findFrom (n : BdecodeNode) (key : Bytes) : Nat → Nat → Option (Option BdecodeNode)
  | 0, _ => none
  | rounds + 1, token => do
      let t ← n.tokens[token]?
      if t.type = .end then some none
      else
        let found ← n.isKey key token
        if found then some (some (n.goto (token + t.nextItem)))
        else
          let value ← n.tokens[token + t.nextItem]?
          n.findFrom key rounds (token + t.nextItem + value.nextItem)

/-- `dict_find`. -/
def dictFind (n : BdecodeNode) (key : Bytes) : Option (Option BdecodeNode) :=
  n.findFrom key n.tokens.length (n.tokenIdx + 1)

/-- `dict_find` for a node of one type. -/
def dictFindType (n : BdecodeNode) (type : TokenType) (key : Bytes) :
    Option (Option BdecodeNode) := do
  let ret ← n.dictFind key
  some (ret.filter (·.type = some type))

def dictFindList (n : BdecodeNode) : Bytes → Option (Option BdecodeNode) := n.dictFindType .list
def dictFindDict (n : BdecodeNode) : Bytes → Option (Option BdecodeNode) := n.dictFindType .dict
def dictFindString (n : BdecodeNode) : Bytes → Option (Option BdecodeNode) :=
  n.dictFindType .string
def dictFindInt (n : BdecodeNode) : Bytes → Option (Option BdecodeNode) :=
  n.dictFindType .integer

/-- `dict_find_string_value`. -/
def dictFindStringValue (n : BdecodeNode) (key : Bytes) (default : Bytes := []) : Option Bytes := do
  match ← n.dictFindString key with
  | none => some default
  | some value => value.stringValue

/-- `dict_find_int_value`. -/
def dictFindIntValue (n : BdecodeNode) (key : Bytes) (default : Int := 0) : Option Int := do
  match ← n.dictFindInt key with
  | none => some default
  | some value => value.intValue

/-! ## Loops -/

/-- A loop over the items of a list: `for (int i = 0; i < n.list_size(); ++i)` with
`n.list_at(i)`. -/
def listLoop {α : Type} (n : BdecodeNode) (f : Nat → BdecodeNode → α → Option α) :
    Nat → Nat → Lookups → α → Option α
  | 0, _, _, _ => none
  | rounds + 1, i, c, acc => do
      let (size, c) ← n.listSize c
      if i < size then
        let (item, c) ← n.listAt c i
        let acc ← f i item acc
        n.listLoop f rounds (i + 1) c acc
      else some acc

/-- The loop over all items of a list, of which there are fewer than tokens. -/
def eachItem {α : Type} (n : BdecodeNode) (f : Nat → BdecodeNode → α → Option α) (init : α) :
    Option α := n.listLoop f (n.tokens.length + 1) 0 {} init

/-- A loop over the keys and values of a dictionary. -/
def dictLoop {α : Type} (n : BdecodeNode) (f : Bytes → BdecodeNode → α → Option α) :
    Nat → Nat → Lookups → α → Option α
  | 0, _, _, _ => none
  | rounds + 1, i, c, acc => do
      let (size, c) ← n.dictSize c
      if i < size then
        let ((key, item), c) ← n.dictAt c i
        let acc ← f key item acc
        n.dictLoop f rounds (i + 1) c acc
      else some acc

def eachPair {α : Type} (n : BdecodeNode) (f : Bytes → BdecodeNode → α → Option α) (init : α) :
    Option α := n.dictLoop f (n.tokens.length + 1) 0 {} init

/-! ## Back to an `entry` -/

/-- `entry::operator=(bdecode_node)`. No tree is deeper than it has tokens. -/
def toEntry : Nat → BdecodeNode → Option Entry
  | 0, _ => none
  | depth + 1, n =>
      match n.type with
      | some .string => n.stringValue.map .string
      | some .integer => n.intValue.map .integer
      | some .dict =>
          (n.eachPair (fun key item d => do
            let e ← toEntry depth item
            some (OrderedMap.insert key e d)) []).map .dictionary
      | some .list =>
          (n.eachItem (fun _ item l => do
            let e ← toEntry depth item
            some (l ++ [e])) []).map .list
      | _ => some .undefined

end BdecodeNode

end BtDownloader
