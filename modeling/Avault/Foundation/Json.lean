import Avault.Foundation.JsonText

/-! The texts of RFC 8259, as lists of characters. A text is described by its members at the
top, so that a reader that looks for one of them needs no value of the others. -/
namespace Avault.Foundation.Json
open JsonText

def isWs (c : Char) : Bool := c == ' ' || c == '\t' || c == '\n' || c == '\r'

def Ws (text : List Char) : Prop := ∀ c ∈ text, isWs c = true

/-- A text with white space around it. -/
def Padded (inner text : List Char) : Prop := ∃ before after, Ws before ∧ Ws after ∧ text = before ++ (inner ++ after)

def Digits (text : List Char) : Prop := text ≠ [] ∧ ∀ c ∈ text, c.isDigit = true

structure NumberParts where
  minus : List Char
  int : List Char
  frac : List Char
  exp : List Char

structure NumberParts.Valid (parts : NumberParts) : Prop where
  minus : parts.minus = [] ∨ parts.minus = ['-']
  int : parts.int = ['0'] ∨ (Digits parts.int ∧ parts.int.head? ≠ some '0')
  frac : parts.frac = [] ∨ ∃ digits, Digits digits ∧ parts.frac = '.'::digits
  exp : parts.exp = [] ∨ ∃ e sign digits, (e = 'e' ∨ e = 'E') ∧ (sign = [] ∨ sign = ['+'] ∨ sign = ['-']) ∧
    Digits digits ∧ parts.exp = e::(sign ++ digits)

def Number (text : List Char) : Prop :=
  ∃ parts : NumberParts, parts.Valid ∧ text = parts.minus ++ (parts.int ++ (parts.frac ++ parts.exp))

/-- A name, a colon and a value, which may be any text here. -/
def Member (name : String) (value text : List Char) : Prop :=
  ∃ literal key padded, Literal name literal ∧ Padded literal key ∧ Padded value padded ∧ text = key ++ ':'::padded

/-- What a text is, inside of a value. -/
inductive Part
  | value
  | items
  | members

inductive Text : Part → List Char → Prop
  | word {text} : text ∈ ["true".toList,"false".toList,"null".toList] → Text .value text
  | number {text} : Number text → Text .value text
  | string {value text} : Literal value text → Text .value text
  | emptyArray {ws} : Ws ws → Text .value ('['::(ws ++ [']']))
  | array {items} : Text .items items → Text .value ('['::(items ++ [']']))
  | emptyObject {ws} : Ws ws → Text .value ('\x7b'::(ws ++ ['\x7d']))
  | object {members} : Text .members members → Text .value ('\x7b'::(members ++ ['\x7d']))
  | item {value text} : Text .value value → Padded value text → Text .items text
  | items {value text rest} : Text .value value → Padded value text → Text .items rest →
    Text .items (text ++ ','::rest)
  | member {name value text} : Text .value value → Member name value text → Text .members text
  | members {name value text rest} : Text .value value → Member name value text → Text .members rest →
    Text .members (text ++ ','::rest)

/-- The members of an object between the braces, each with its name and the text of its value. -/
inductive Members : List (String × List Char) → List Char → Prop
  | last {name value text} : Text .value value → Member name value text → Members [(name,value)] text
  | cons {name value text members rest} : Text .value value → Member name value text → Members members rest →
    Members ((name,value)::members) (text ++ ','::rest)

/-- An object and its members, in order. -/
inductive Object : List (String × List Char) → List Char → Prop
  | empty {ws} : Ws ws → Object [] ('\x7b'::(ws ++ ['\x7d']))
  | members {members text} : Members members text → Object members ('\x7b'::(text ++ ['\x7d']))

theorem Members.text {members : List (String × List Char)} {text : List Char} (h : Members members text) :
    Text .members text := by
  induction h with
  | last hvalue hmember => exact .member hvalue hmember
  | cons hvalue hmember _ ih => exact .members hvalue hmember ih

theorem Text.members_exists {text : List Char} (h : Text .members text) : ∃ members, Members members text := by
  generalize hpart : Part.members = part at h
  induction h with
  | member hvalue hmember => exact ⟨_,.last hvalue hmember⟩
  | members hvalue hmember _ _ ih =>
    obtain ⟨members,hmembers⟩ := ih hpart
    exact ⟨_,.cons hvalue hmember hmembers⟩
  | _ => cases hpart

theorem Number.cons {text : List Char} (h : Number text) :
    ∃ c rest, text = c::rest ∧ (c = '-' ∨ c.isDigit = true) := by
  obtain ⟨⟨minus,int,frac,exp⟩,⟨hminus,hint,-,-⟩,rfl⟩ := h
  obtain rfl | rfl := hminus
  · obtain rfl | ⟨⟨hne,hdigits⟩,-⟩ := hint
    · exact ⟨_,_,rfl,.inr rfl⟩
    · obtain ⟨c,rest,rfl⟩ := List.exists_cons_of_ne_nil hne
      exact ⟨c,_,rfl,.inr (hdigits c List.mem_cons_self)⟩
  · exact ⟨_,_,rfl,.inl rfl⟩

/-- A value is an object just where it begins with a brace. -/
theorem object_iff {text : List Char} : (∃ members, Object members text) ↔
    Text .value text ∧ text.head? = some '\x7b' := by
  constructor
  · rintro ⟨members,h⟩
    cases h with
    | empty hws => exact ⟨.emptyObject hws,rfl⟩
    | members h => exact ⟨.object h.text,rfl⟩
  · rintro ⟨h,hhead⟩
    cases h with
    | word hword =>
      simp only [List.mem_cons,List.not_mem_nil,or_false] at hword
      obtain rfl | rfl | rfl := hword <;> exact absurd hhead (by decide)
    | number hnumber =>
      obtain ⟨c,rest,rfl,hc⟩ := hnumber.cons
      obtain rfl := Option.some.inj hhead
      exact absurd hc (by decide)
    | string hliteral =>
      obtain ⟨body,-,rfl⟩ := hliteral
      cases hhead
    | emptyArray | array => cases hhead
    | emptyObject hws => exact ⟨[],.empty hws⟩
    | object h =>
      obtain ⟨members,hmembers⟩ := h.members_exists
      exact ⟨members,.members hmembers⟩

/-! Members with their place in the text. -/

/-- A name up to the value behind its colon. -/
def Key (name : String) (text : List Char) : Prop :=
  ∃ before literal after gap, Ws before ∧ Literal name literal ∧ Ws after ∧ Ws gap ∧
    text = before ++ (literal ++ (after ++ ':'::gap))

structure Located where
  name : String
  /-- The text in front of the value. -/
  before : List Char
  value : List Char

/-- The members between the braces of an object, behind the text that is in front of them. -/
inductive LocatedMembers : List Char → List Located → List Char → Prop
  | last {front name key value ws} : Key name key → Text .value value → Ws ws →
    LocatedMembers front [⟨name,front ++ key,value⟩] (key ++ (value ++ ws))
  | cons {front name key value ws members rest} : Key name key → Text .value value → Ws ws →
    LocatedMembers (front ++ (key ++ (value ++ (ws ++ [','])))) members rest →
    LocatedMembers front (⟨name,front ++ key,value⟩::members) (key ++ (value ++ (ws ++ ','::rest)))

inductive LocatedObject : List Char → List Located → List Char → Prop
  | empty {front ws} : Ws ws → LocatedObject front [] ('\x7b'::(ws ++ ['\x7d']))
  | members {front members text} : LocatedMembers (front ++ ['\x7b']) members text →
    LocatedObject front members ('\x7b'::(text ++ ['\x7d']))

/-- A whole text whose top level is an object, with the members of that. -/
def Document (members : List Located) (text : List Char) : Prop :=
  ∃ before object after, Ws before ∧ Ws after ∧ LocatedObject before members object ∧ text = before ++ (object ++ after)

theorem Member.key {name : String} {value text : List Char} (h : Member name value text) :
    ∃ key ws, Key name key ∧ Ws ws ∧ text = key ++ (value ++ ws) := by
  obtain ⟨literal,_,_,hliteral,⟨before,after,hbefore,hafter,rfl⟩,⟨gap,ws,hgap,hws,rfl⟩,rfl⟩ := h
  refine ⟨before ++ (literal ++ (after ++ ':'::gap)),ws,⟨before,literal,after,gap,hbefore,hliteral,hafter,hgap,rfl⟩,hws,?_⟩
  simp only [List.append_assoc,List.cons_append]

theorem Members.located {members : List (String × List Char)} {text : List Char} (h : Members members text)
    (front : List Char) : ∃ located, LocatedMembers front located text ∧
      located.map (fun member => (member.name,member.value)) = members := by
  induction h generalizing front with
  | last hvalue hmember =>
    obtain ⟨key,ws,hkey,hws,rfl⟩ := hmember.key
    exact ⟨_,.last hkey hvalue hws,rfl⟩
  | @cons name value _ _ _ hvalue hmember _ ih =>
    obtain ⟨key,ws,hkey,hws,rfl⟩ := hmember.key
    obtain ⟨located,hlocated,hmembers⟩ := ih (front ++ (key ++ (value ++ (ws ++ [',']))))
    refine ⟨⟨name,front ++ key,value⟩::located,?_,by rw [List.map_cons,hmembers]⟩
    rw [List.append_assoc,List.append_assoc]
    exact .cons hkey hvalue hws hlocated

/-- Every text of an object has its members at some places. -/
theorem document_exists {value text : List Char} (hvalue : Text .value value) (hhead : value.head? = some '\x7b')
    (htext : Padded value text) : ∃ members, Document members text := by
  obtain ⟨before,after,hbefore,hafter,rfl⟩ := htext
  obtain ⟨members,hobject⟩ := object_iff.mpr ⟨hvalue,hhead⟩
  cases hobject with
  | empty hws => exact ⟨[],before,_,after,hbefore,hafter,.empty hws,rfl⟩
  | members hmembers =>
    obtain ⟨located,hlocated,-⟩ := hmembers.located (before ++ ['\x7b'])
    exact ⟨located,before,_,after,hbefore,hafter,.members hlocated,rfl⟩

/-- Members without white space. -/
def compact (J : Serializer) : List (String × List Char) → List Char
  | [] => []
  | [(name,value)] => (J.toText name).toList ++ ':'::value
  | (name,value)::member::rest => (J.toText name).toList ++ ':'::value ++ ','::compact J (member::rest)

theorem padded_self (text : List Char) : Padded text text :=
  ⟨[],[],List.forall_mem_nil _,List.forall_mem_nil _,(List.append_nil text).symm⟩

theorem compact_members (J : Serializer) {members : List (String × List Char)} (hne : members ≠ [])
    (hvalues : ∀ member ∈ members, Text .value member.2) : Members members (compact J members) := by
  have hmember (name : String) (value : List Char) : Member name value ((J.toText name).toList ++ ':'::value) :=
    ⟨_,_,_,J.toText_literal name,padded_self _,padded_self _,rfl⟩
  fun_induction compact J members with
  | case1 => exact (hne rfl).elim
  | case2 name value => exact .last (hvalues _ List.mem_cons_self) (hmember name value)
  | case3 name value member rest ih =>
    exact .cons (hvalues _ List.mem_cons_self) (hmember name value)
      (ih (List.cons_ne_nil _ _) fun m hm => hvalues m (List.mem_cons_of_mem _ hm))

/-- The members of an object are found in its text under their names. -/
theorem Members.document {members : List (String × List Char)} {text ws : List Char} (h : Members members text) (hws : Ws ws) :
    ∃ located, Document located ('\x7b'::(text ++ ['\x7d']) ++ ws) ∧
      located.map (fun member => (member.name,member.value)) = members := by
  obtain ⟨located,hlocated,hmembers⟩ := h.located ['\x7b']
  exact ⟨located,⟨[],_,ws,List.forall_mem_nil _,hws,.members hlocated,rfl⟩,hmembers⟩

theorem number_digits {text : List Char} (hne : text ≠ []) (hdigits : text.all Char.isDigit = true)
    (hhead : text.head? ≠ some '0') : Number text :=
  ⟨⟨[],text,[],[]⟩,⟨.inl rfl,.inr ⟨⟨hne,List.all_eq_true.mp hdigits⟩,hhead⟩,.inl rfl,.inl rfl⟩,
    by rw [List.nil_append,List.append_nil,List.append_nil]⟩

end Avault.Foundation.Json
