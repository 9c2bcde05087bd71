/-! Tables: values by name, kept in the order of the names.

Names are compared by their characters, which is also the order of their encoded
bytes. Because the order is fixed, tables with the same entries are equal. -/
namespace Metaheuristic

/-- Entries in the order of their names. -/
structure Table (β : Type) where
  entries : List (String × β)
  deriving Repr

namespace Table

variable {β : Type}

def empty : Table β := ⟨[]⟩

/-- Changes the entry of a name; a missing one is put in its place. -/
def alterEntry (name : String) (f : Option β → β) : List (String × β) → List (String × β)
  | [] => [(name, f none)]
  | (other, x) :: rest =>
    if name < other then (name, f none) :: (other, x) :: rest
    else if name = other then (name, f (some x)) :: rest
    else (other, x) :: alterEntry name f rest

def alter (t : Table β) (name : String) (f : Option β → β) : Table β :=
  ⟨alterEntry name f t.entries⟩

def insert (t : Table β) (name : String) (x : β) : Table β := t.alter name fun _ => x

def get? (t : Table β) (name : String) : Option β := t.entries.lookup name

def names (t : Table β) : List String := t.entries.map Prod.fst

def size (t : Table β) : Nat := t.entries.length

/-- A table of entries; of two with one name the later stays. -/
def ofList (entries : List (String × β)) : Table β :=
  entries.foldl (fun t e => t.insert e.1 e.2) empty

end Table
end Metaheuristic
