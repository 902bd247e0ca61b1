import Ashe.EnvVariable

namespace Ashe.Http

open EnvVariable (WString wide)
open StrSplit (strSplit)

/-- What is met in one turn of a body loop: the answer of WinHttpQueryDataAvailable,
whether there is memory for the buffer, and the bytes that WinHttpReadData puts there.
A call that fails leaves its error code. -/
structure Turn where
  available : Except UInt32 UInt32
  allocated : Bool
  read : Except UInt32 (List UInt8)
  within : ∀ size bytes, available = .ok size → read = .ok bytes → bytes.length ≤ size.toNat

/-- Both body loops, over the turns that they meet and with the way they store a buffer.
There is no result before the loop has been left. Where there is no memory the loop is left by its
test of the buffer; `new` throws there, and that test is never met. -/
def bodyLoop (store : List UInt8 → List UInt8 → Bool × List UInt8) :
    List Turn → UInt32 → List UInt8 → Option (Bool × UInt32 × List UInt8)
  | [], _, _ => none
  | turn :: turns, gle, body =>
      match turn.available with
      | .error code => some (false, code, body)
      | .ok size =>
          if size = 0 then some (true, gle, body)
          else if turn.allocated then
            match turn.read with
            | .error code => some (false, code, body)
            | .ok bytes =>
                -- the buffer is zeroed before the read, and stored with its whole size
                let received := bytes ++ List.replicate (size.toNat - bytes.length) 0
                let (stored, body) := store body received
                if stored then bodyLoop store turns gle body else some (false, gle, body)
          else some (false, gle, body)

def getResponseBody (hRequest : Bool) (turns : List Turn) (gle : UInt32) (data : List UInt8) :
    Option (Bool × UInt32 × List UInt8) :=
  if hRequest then bodyLoop (fun data received => (true, data ++ received)) turns gle data
  else some (false, gle, data)

abbrev Fwrite := List UInt8 → List UInt8 → Nat × List UInt8

/-- The overload of saveResponseBodyToFile for a stream, with what was written to it. -/
def saveResponseBody (fwrite : Fwrite) (hRequest f : Bool) (turns : List Turn) (gle : UInt32)
    (file : List UInt8) : Option (Bool × UInt32 × List UInt8) :=
  if hRequest then
    if f then
      bodyLoop (fun file received =>
        let (written, file) := fwrite file received
        (written == received.length, file)) turns gle file
    else some (false, gle, file)
  else some (false, gle, file)

/-- The overload for a path: a file that can be opened is emptied. -/
def saveResponseBodyToFile (fwrite : Fwrite) (hRequest opened : Bool) (turns : List Turn)
    (gle : UInt32) (file : List UInt8) : Option (Bool × UInt32 × List UInt8) :=
  if hRequest then
    if opened then saveResponseBody fwrite hRequest true turns gle []
    else some (false, gle, file)
  else some (false, gle, file)

abbrev HeaderMap := WString → Option WString

def crlf : WString := [wide '\r', wide '\n']

def colonSpace : WString := [wide ':', wide ' ']

def enterHeader (headerMap : HeaderMap) : List WString → HeaderMap
  | [name, value] => Function.update headerMap name (some value)
  | _ => headerMap

def headerLoop (n : Nat) : List WString → HeaderMap → Option HeaderMap
  | [], headerMap => some headerMap
  | item :: headers, headerMap =>
      (strSplit n item colonSpace false).bind fun v =>
        headerLoop n headers (enterHeader headerMap v)

/-- getResponseHeaders, with the text that getResponseRawHeaders has or none where it fails.
The first argument bounds the turns of each StrSplit. -/
def getResponseHeaders (n : Nat) (rawHeaders : Option WString) (headerMap : HeaderMap) :
    Option (Bool × HeaderMap) :=
  match rawHeaders with
  | none => some (false, headerMap)
  | some strHeaders =>
      (strSplit n strHeaders crlf false).bind fun headers =>
        (headerLoop n headers headerMap).bind fun headerMap => some (true, headerMap)

end Ashe.Http
