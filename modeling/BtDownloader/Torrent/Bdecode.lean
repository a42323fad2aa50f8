import BtDownloader.Lib.Bencoding

set_option autoImplicit false

/-! # libtorrent's `bdecode`

`bdecode` reads bencoded text into a flat list of tokens. A token knows where its text starts
and how many tokens further the next item of the same container is. Containers that are
still open are on a stack; where a text is broken off, the tokens are terminated so that the
tree can be read all the same.
-/

namespace BtDownloader

open Bencoding

/-- `bdecode_errors`. -/
inductive BdecodeError
  | expectedDigit
  | expectedColon
  | unexpectedEof
  | expectedValue
  | depthExceeded
  | limitExceeded
  | overflow
deriving DecidableEq, Repr

/-- `bdecode_token::type_t`, without `none`, which no token has. -/
inductive TokenType
  | dict
  | list
  | string
  | integer
  | «end»
deriving DecidableEq, Repr

/-- `bdecode_token`. `header` is the length of a string's prefix, less `2`. -/
structure BdecodeToken where
  offset : Nat
  type : TokenType
  nextItem : Nat := 0
  header : Nat := 0
deriving DecidableEq, Repr

/-- `bdecode_token::max_offset`, `max_next_item` and `max_header`. -/
def maxOffset : Nat := 2 ^ 29 - 1
def maxNextItem : Nat := 2 ^ 29 - 1
def maxHeader : Nat := 2 ^ 3 - 1

/-- The largest `std::int64_t`. -/
def maxInt64 : Nat := 2 ^ 63 - 1

/-- `stack_frame`: the token of an open container and, for a dictionary, whether a value is
read next. -/
structure StackFrame where
  token : Nat
  value : Bool := false
deriving DecidableEq, Repr

/-! ## Numbers -/

/-- The loop of `check_integer`: how many digits it has seen when it stops, and its error. It
stops at an `e` behind a digit. -/
def digitLoop : Bytes → Nat → Nat × Option BdecodeError
  | [], digits => (digits, some .unexpectedEof)
  | c :: text, digits =>
      if numeric c = false then (digits, some .expectedDigit)
      else if text.head? = some (byte 'e') then (digits + 1, none)
      else digitLoop text (digits + 1)

/-- `check_integer`: how far it has come in the text behind the `i`, and its error. More than
`20` digits are an overflow, whatever stands behind them. -/
def checkInteger (text : Bytes) : Nat × Option BdecodeError :=
  let sign := if text.head? = some (byte '-') then 1 else 0
  let (digits, e) := digitLoop (text.drop sign) 0
  (sign + digits, if 20 < digits then some .overflow else e)

/-- `parse_int`: how far it has come, the value and the error. -/
def parseInt (delimiter : UInt8) : Bytes → Nat → Nat × Nat × Option BdecodeError
  | [], val => (0, val, none)
  | c :: text, val =>
      if c = delimiter then (0, val, none)
      else if numeric c = false then (0, val, some .expectedDigit)
      else if maxInt64 / 10 < val then (0, val, some .overflow)
      else if maxInt64 - (c.toNat - 48) < val * 10 then (0, val * 10, some .overflow)
      else
        let (n, val, e) := parseInt delimiter text (val * 10 + (c.toNat - 48))
        (n + 1, val, e)

/-! ## The loop -/

/-- The variables of `bdecode`; the stack has its top first. -/
structure Decoder where
  tokens : List BdecodeToken := []
  stack : List StackFrame := []
  start : Nat := 0
  tokenLimit : Nat
deriving DecidableEq, Repr

/-- How `bdecode` fails: the error, `error_pos` and the variables as they are then. -/
structure BdecodeFailure where
  error : BdecodeError
  errorPos : Nat
  decoder : Decoder
deriving DecidableEq, Repr

namespace Decoder

/-- `TORRENT_FAIL_BDECODE`. -/
def fail (st : Decoder) (e : BdecodeError) : Except BdecodeFailure Decoder :=
  .error { error := e, errorPos := st.start, decoder := st }

/-- The frame belongs to a dictionary. -/
def isDict (st : Decoder) (frame : StackFrame) : Bool :=
  (st.tokens[frame.token]?).any (·.type = .dict)

/-- The stack once an item of the top container has begun: after a key comes a value, after
a value a key. -/
def turned (st : Decoder) : List StackFrame :=
  match st.stack with
  | [] => []
  | frame :: frames =>
      (if st.isDict frame then { frame with value := !frame.value } else frame) :: frames

/-- A token and the bytes it stands for. -/
def push (st : Decoder) (token : BdecodeToken) (length : Nat) : Decoder :=
  { st with tokens := st.tokens ++ [token], start := st.start + length }

/-- `d` and `l`. -/
def openContainer (st : Decoder) (type : TokenType) : Except BdecodeFailure Decoder :=
  .ok { st.push { offset := st.start, type := type } 1 with
    stack := { token := st.tokens.length } :: st.turned }

/-- `i`: the text up to the `e`. -/
def readInteger (buffer : Bytes) (st : Decoder) : Except BdecodeFailure Decoder :=
  match checkInteger (buffer.drop (st.start + 1)) with
  | (n, some e) =>
      .error { error := e, errorPos := st.start + 1 + n, decoder := st }
  | (n, none) =>
      .ok { st.push { offset := st.start, type := .integer, nextItem := 1 } (n + 2) with
        stack := st.turned }

/-- `e`: the end of the top container, whose token learns where the next item is. -/
def closeContainer (st : Decoder) : Except BdecodeFailure Decoder :=
  match st.stack with
  | [] => st.fail .unexpectedEof
  | frame :: frames =>
      if st.isDict frame && frame.value then st.fail .expectedValue
      else
        let tokens := st.tokens ++ [{ offset := st.start, type := .end, nextItem := 1 }]
        if maxNextItem < tokens.length - frame.token then
          { st with tokens := tokens }.fail .limitExceeded
        else .ok { st with
          tokens := tokens.modify frame.token
            ({ · with nextItem := tokens.length - frame.token })
          stack := frames
          start := st.start + 1 }

/-- A digit: a string with its length before the colon. -/
def readString (buffer : Bytes) (t : UInt8) (st : Decoder) : Except BdecodeFailure Decoder :=
  let strStart := st.start
  if numeric t = false then st.fail .expectedValue
  else
    let st := { st with start := st.start + 1 }
    if buffer.length ≤ st.start then st.fail .unexpectedEof
    else
      let (n, len, e) := parseInt (byte ':') (buffer.drop st.start) (t.toNat - 48)
      let st := { st with start := st.start + n }
      match e with
      | some e => st.fail e
      | none =>
          if st.start = buffer.length then st.fail .expectedColon
          else if buffer.length - st.start - 1 < len then st.fail .unexpectedEof
          else
            let st := { st with start := st.start + 1 }
            if maxHeader < st.start - strStart - 2 then st.fail .limitExceeded
            else .ok { st.push ⟨strStart, .string, 1, st.start - strStart - 2⟩ len with
              stack := st.turned }

/-- The top container is a dictionary that is to have its next key. -/
def expectsKey (st : Decoder) : Bool :=
  (st.stack.head?).any fun frame => st.isDict frame && !frame.value

/-- A key is expected, and `t` begins no string and does not end the dictionary. -/
def missesKey (st : Decoder) (t : UInt8) : Bool :=
  st.expectsKey && !numeric t && t ≠ byte 'e'

/-- The `switch` over the first byte of a token. -/
def switch (buffer : Bytes) (t : UInt8) (st : Decoder) : Except BdecodeFailure Decoder :=
  if t = byte 'd' then st.openContainer .dict
  else if t = byte 'l' then st.openContainer .list
  else if t = byte 'i' then st.readInteger buffer
  else if t = byte 'e' then st.closeContainer
  else st.readString buffer t

/-- One round of the loop of `bdecode`. -/
def next (buffer : Bytes) (depthLimit : Nat) (st : Decoder) : Except BdecodeFailure Decoder :=
  match buffer[st.start]? with
  | none => st.fail .unexpectedEof
  | some t =>
      if depthLimit ≤ st.stack.length then st.fail .depthExceeded
      else if st.tokenLimit = 0 then st.fail .limitExceeded
      else
        let st := { st with tokenLimit := st.tokenLimit - 1 }
        if st.missesKey t then st.fail .expectedDigit else st.switch buffer t

/-- The loop of `bdecode`: it is left when the first item is complete, and `start` is past the
end after `length + 1` rounds at the latest. -/
def loop (buffer : Bytes) (depthLimit : Nat) : Nat → Decoder → Except BdecodeFailure Decoder
  | 0, st => .ok st
  | k + 1, st =>
      match st.next buffer depthLimit with
      | .error failure => .error failure
      | .ok st => if st.stack = [] then .ok st else loop buffer depthLimit k st

/-- One round of the loop behind `done:`, for the top container. A dictionary that waits for
a value gets an empty one. -/
def terminate (st : Decoder) (frame : StackFrame) : Decoder :=
  let dummy : List BdecodeToken :=
    if st.isDict frame && frame.value then
      [{ offset := st.start, type := .dict, nextItem := 2 }, { offset := st.start, type := .end }]
    else []
  let tokens := st.tokens ++ dummy
  { st with
    tokens := tokens.modify frame.token ({ · with nextItem := tokens.length - frame.token })
      ++ [{ offset := st.start, type := .end, nextItem := 1 }] }

/-- The part of `bdecode` behind `done:`. -/
def finish (st : Decoder) : Decoder :=
  let st := st.stack.foldl terminate st
  { st with
    tokens := st.tokens ++ [{ offset := st.start, type := .end }]
    stack := [] }

end Decoder

/-- The node that `bdecode` returns: its tokens, and `m_buffer_size`. -/
structure BdecodeRoot where
  tokens : List BdecodeToken := []
  bufferSize : Nat := 0
deriving DecidableEq, Repr

/-- `bdecode`: the root node, and the error with its position. -/
def bdecode (buffer : Bytes) (depthLimit tokenLimit : Nat) :
    BdecodeRoot × Option (BdecodeError × Nat) :=
  if maxOffset < buffer.length then ({}, some (.limitExceeded, 0))
  else
    let st : Decoder := { tokenLimit := tokenLimit }
    let outcome := if buffer = [] then st.fail .unexpectedEof
      else st.loop buffer depthLimit (buffer.length + 1)
    match outcome with
    | .ok st =>
        let st := st.finish
        ({ tokens := st.tokens, bufferSize := st.start }, none)
    | .error failure =>
        let st := failure.decoder.finish
        ({ tokens := st.tokens, bufferSize := st.start }, some (failure.error, failure.errorPos))

end BtDownloader
