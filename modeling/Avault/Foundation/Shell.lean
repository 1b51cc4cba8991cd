import Mathlib.Data.Nat.Notation
import Mathlib.Data.List.Basic

/-! Reading a text as POSIX shell variable assignments. Anything else that a shell would see in
it, such as an expansion or a command, makes the reader refuse the text. -/
namespace Avault.Foundation.Shell

/-- Where the reader stands: before an assignment, in its name, or in its value, unquoted, in
single quotes or behind a backslash. -/
inductive Mode
  | start
  | name
  | word
  | quoted
  | escaped
deriving DecidableEq, Repr

structure Reader where
  mode : Mode
  done : List (String × String)
  name : List Char
  value : List Char
deriving DecidableEq, Repr

def isNameStart (c : Char) : Bool := c == '_' || c.isUpper || c.isLower

def isNameChar (c : Char) : Bool := isNameStart c || c.isDigit

/-- Unquoted, these end a word, start another command or are expanded. -/
def isSpecial (c : Char) : Bool := c ∈ "|&;<>()$`\"~ \t".toList

namespace Reader

def init : Reader := ⟨.start,[],[],[]⟩

def push (r : Reader) (c : Char) : Reader := { r with value := r.value ++ [c] }

/-- The assignment ends. -/
def assign (r : Reader) : Reader :=
  ⟨.start,r.done ++ [(String.ofList r.name,String.ofList r.value)],[],[]⟩

def step (r : Reader) (c : Char) : Option Reader :=
  match r.mode with
  | .start =>
    if c = '\n' then some r
    else if isNameStart c then some { r with mode := .name, name := [c] }
    else none
  | .name =>
    if c = '=' then some { r with mode := .word }
    else if isNameChar c then some { r with name := r.name ++ [c] }
    else none
  | .word =>
    if c = '\n' then some r.assign
    else if c = '\'' then some { r with mode := .quoted }
    else if c = '\\' then some { r with mode := .escaped }
    else if isSpecial c then none
    else some (r.push c)
  | .quoted => if c = '\'' then some { r with mode := .word } else some (r.push c)
  | .escaped =>
    -- an escaped newline continues the line
    if c = '\n' then some { r with mode := .word } else some { r.push c with mode := .word }

/-- The end of the text ends the last assignment, but not a name or a quotation. -/
def finish (r : Reader) : Option (List (String × String)) :=
  match r.mode with
  | .start => some r.done
  | .word => some r.assign.done
  | _ => none

def read (r : Reader) (text : List Char) : Option Reader := text.foldlM step r

end Reader

/-- The assignments of a text that holds nothing else. -/
def readAssignments (text : String) : Option (List (String × String)) :=
  Reader.init.read text.toList >>= Reader.finish

namespace Reader

variable {r : Reader} {c : Char} {s t : List Char}

@[simp] theorem read_nil : r.read [] = some r := rfl

theorem read_cons {r' : Reader} (h : r.step c = some r') : r.read (c::t) = r'.read t := by
  rw [read,List.foldlM_cons,h]
  rfl

theorem read_append {r' : Reader} (h : r.read s = some r') : r.read (s ++ t) = r'.read t := by
  rw [read,List.foldlM_append,show s.foldlM step r = some r' from h]
  rfl

/-- In single quotes every character but the quote stands for itself. -/
theorem step_quoted (h : r.mode = .quoted) (hc : c ≠ '\'') : r.step c = some (r.push c) := by
  rw [step,h]
  exact if_neg hc

/-- A name is read whole. -/
theorem read_name (h : r.mode = .name) (hs : ∀ c ∈ s, isNameChar c = true) :
    r.read s = some { r with name := r.name ++ s } := by
  induction s generalizing r with
  | nil => simp
  | cons c s ih =>
    have hc : isNameChar c = true := hs c List.mem_cons_self
    have hne : c ≠ '=' := by
      rintro rfl
      exact absurd hc (by decide)
    have hstep : r.step c = some { r with name := r.name ++ [c] } := by
      rw [step,h]
      exact (if_neg hne).trans (if_pos hc)
    rw [read_cons hstep]
    refine (ih (r := { r with name := r.name ++ [c] }) h fun c hc => hs c (List.mem_cons_of_mem _ hc)).trans ?_
    simp

end Reader
end Avault.Foundation.Shell
