/-!
# Catalogs

A catalog is a list of entries under distinct keys, in the order in which the keys first came up.
`Catalog.upsert` changes the entry of a key where it stands or adds one at the end.
-/

namespace BusinessClass

/-- Entries under keys, oldest key first. -/
abbrev Catalog (κ α : Type) := List (κ × α)

namespace Catalog

variable {κ α : Type}

/-- The keys in order. -/
def keys (c : Catalog κ α) : List κ := c.map Prod.fst

/-- The entries in order of their keys. -/
def values (c : Catalog κ α) : List α := c.map Prod.snd

@[simp] theorem keys_nil : keys ([] : Catalog κ α) = [] := rfl

@[simp] theorem keys_cons (k : κ) (a : α) (c : Catalog κ α) :
    keys ((k, a) :: c) = k :: keys c := rfl

variable [DecidableEq κ]

/-- The entry under a key. -/
def get? : Catalog κ α → κ → Option α
  | [], _ => none
  | (k', a) :: rest, k => if k' = k then some a else get? rest k

/-- Whether the key has an entry. -/
def contains (c : Catalog κ α) (k : κ) : Bool := (c.get? k).isSome

/-- Makes the entry under `k` out of the one that is there, or out of nothing. -/
def upsert (k : κ) (f : Option α → α) : Catalog κ α → Catalog κ α
  | [] => [(k, f none)]
  | (k', a) :: rest => if k' = k then (k', f (some a)) :: rest else (k', a) :: upsert k f rest

/-- Puts an entry under a key, in place of the one that is there. -/
def insert (k : κ) (a : α) (c : Catalog κ α) : Catalog κ α := c.upsert k fun _ => a

/-- The catalog of a list of keyed entries; the last entry of a key counts. -/
def ofList (entries : List (κ × α)) : Catalog κ α :=
  entries.foldl (fun c e => insert e.1 e.2 c) []

end Catalog

end BusinessClass
