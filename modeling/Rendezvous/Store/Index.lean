/-!
# Indexes

A finite map from texts: pairs in no particular order, the first of a key being the one in force.
-/

namespace Rendezvous

abbrev Index (α : Type) := List (String × α)

namespace Index

variable {α : Type}

def get? (index : Index α) (key : String) : Option α := index.lookup key

def contains (index : Index α) (key : String) : Bool := (index.get? key).isSome

def erase (index : Index α) (key : String) : Index α := index.filter fun p => p.1 != key

def set (index : Index α) (key : String) (value : α) : Index α := (key, value) :: index.erase key

def values (index : Index α) : List α := index.map (·.2)

end Index
end Rendezvous
