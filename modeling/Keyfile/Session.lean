import Keyfile.Keypair.Generate
import Keyfile.Keypair.Load
import Keyfile.Keypair.Save
import Keyfile.Text.Blank

/-!
# Sessions

A command acts on a world: the file tree, standard input and output, a source of random bytes, and
the messages logged so far. An action that fails leaves what it has done so far in place.
-/
namespace Keyfile

structure World where
  files : FileSystem
  /-- Standard input that has not been read. -/
  input : Bytes := []
  /-- How much output there was each time a line was read. -/
  asked : List Nat := []
  /-- Standard output so far. -/
  output : Bytes := []
  /-- How many more bytes standard output takes; without a number it takes all. -/
  room : Option Nat := none
  entropy : Entropy := .ofBytes []
  messages : List Message := []

/-- Why an action fails. -/
inductive Failure where
  | outputClosed
  /-- A line of standard input is not text. -/
  | inputNotText
  | keypair (e : KeypairError)
  deriving DecidableEq

def Failure.message : Failure → String
  | outputClosed => "output closed"
  | inputNotText => AccessError.notText.message
  | keypair e => e.message

abbrev Action := EStateM Failure World

namespace Action

def log (m : Message) : Action Unit :=
  modify fun w => { w with messages := w.messages ++ [m] }

/-- Writes text. When there is too little room for it, what fits is written. -/
def print (s : String) : Action Unit := do
  let w ← get
  let bytes := Utf8.ofString s
  match w.room with
  | none => set { w with output := w.output ++ bytes }
  | some room =>
    set { w with output := w.output ++ bytes.take room, room := some (room - bytes.length) }
    if room < bytes.length then throw .outputClosed

/-- Writes texts one after the other. -/
def printAll (texts : List String) : Action Unit := texts.forM print

/-- The bytes up to and with the first line feed, and those behind it. -/
def splitLine (b : Bytes) : Bytes × Bytes :=
  let line := b.takeWhile (· ≠ 0x0A)
  match b.drop line.length with
  | [] => (line, [])
  | c :: r => (line ++ [c], r)

/-- Reads one line, or what is left if no line ends. A line that is not text is used up too. -/
def readLine : Action (List Char) := do
  let w ← get
  let (line, rest) := splitLine w.input
  set { w with input := rest, asked := w.asked ++ [w.output.length] }
  match Utf8.decode? line with
  | some text => return text
  | none => throw .inputNotText

/-- Reads an answer: a line without the white space around it. -/
def readAnswer : Action (List Char) := do return Blank.trim (← readLine)

/-- Takes over a result and its messages. -/
def ofLogged {α : Type} (r : Logged α) : Action α := do
  modify fun w => { w with messages := w.messages ++ r.messages }
  match r.result with
  | .ok a => return a
  | .error e => throw (.keypair e)

def loadKeypair (path : Path) : Action Keypair := do
  ofLogged (Keypair.load (← get).files path)

def generateKeypair : Action Keypair := do
  ofLogged (Keypair.generate (← get).entropy)

def saveBytes (b : Bytes) (path : Path) (f : JsonFormat) : Action Unit := do
  let w ← get
  let (files, r) := save w.files b path f
  set { w with files }
  ofLogged r

end Action

end Keyfile
