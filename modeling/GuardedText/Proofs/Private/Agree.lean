import Mathlib.Logic.Relator
import GuardedText.Eval.Scope
import GuardedText.Proofs.Related

/-
  Worlds that differ in private attributes only. A `Pairing` tells which objects of two worlds stand
  for each other. Values agree if they are the same or refer to paired objects, and paired objects
  agree if they hold values that agree, the private attributes of host objects aside. Objects that
  only private attributes lead to need no partner, so two worlds that agree may hold objects of
  different number and kind. The host's type of texts spells out all attributes of what it is given:
  where guards get at it, the private attributes have to agree, too.
-/

namespace GuardedText

/-! ## Private attributes -/

namespace Attributes

/-- The attributes that a guard may see. -/
def shown (attributes : Attributes) : Attributes :=
  attributes.filter fun (k, _) => !Store.isPrivate k

/-- The attributes that are private. -/
def hidden (attributes : Attributes) : Attributes :=
  attributes.filter fun (k, _) => Store.isPrivate k

end Attributes

/-- The private attributes of a host object. -/
def Obj.privates : Obj → Option Attributes
  | .record attributes => some attributes.hidden
  | _ => none

/-- The private attributes of the host object at a place. -/
def Store.privates (s : Store) (r : Ref) : Option Attributes := s[r]?.bind Obj.privates

mutual

/-- An image without the private attributes in it. -/
def Image.shown : Image → Image
  | .list items => .list (shownItems items)
  | .tuple items => .tuple (shownItems items)
  | .mapping entries => .mapping (shownEntries entries)
  | .record attributes => .record (shownAttributes attributes)
  | .slots attributes => .slots (shownSlots attributes)
  | .undefined => .undefined
  | .null => .null
  | .bool b => .bool b
  | .num n => .num n
  | .text t => .text t
  | .arrow params => .arrow params
  | .function => .function
  | .awaitable => .awaitable
  | .cycle => .cycle
  | .other => .other

/-- Images without the private attributes in them. -/
def shownItems : List Image → List Image
  | [] => []
  | i :: items => i.shown :: shownItems items

/-- The images of entries without the private attributes in them. -/
def shownEntries : List (Image × Image) → List (Image × Image)
  | [] => []
  | (k, i) :: entries => (k, i.shown) :: shownEntries entries

/-- The images of two attributes without the private attributes in them. -/
def shownSlots : List (Text × Image) → List (Text × Image)
  | [] => []
  | (k, i) :: slots => (k, i.shown) :: shownSlots slots

/-- The images of the attributes that are not private. -/
def shownAttributes : List (Text × Image) → List (Text × Image)
  | [] => []
  | (k, i) :: attributes =>
    if Store.isPrivate k then shownAttributes attributes
    else (k, i.shown) :: shownAttributes attributes

end

/-! ## Agreement -/

/-- Which objects of two worlds stand for each other. -/
structure Pairing where
  /-- Two objects that stand for each other. -/
  pairs : Ref → Ref → Prop
  /-- No object has two partners. -/
  unique : Relator.BiUnique pairs
  /-- The lasting built-in functions stand for themselves. -/
  lasting : ∀ r < Builtin.lasting.length, pairs r r
  /-- Whether guards may get at the host's type of texts; then private attributes have to agree,
  too. -/
  spelled : Prop

section

variable (p : Pairing)

/-- Values that are the same or refer to paired objects. -/
inductive Value.Agree : Value → Value → Prop where
  | undefined : Agree .undefined .undefined
  | null : Agree .null .null
  | bool (b : Bool) : Agree (.bool b) (.bool b)
  | num (n : Num) : Agree (.num n) (.num n)
  | text (t : Text) : Agree (.text t) (.text t)
  | type (t : HostType) : (t = .string → p.spelled) → Agree (.type t) (.type t)
  | ref {r r' : Ref} : p.pairs r r' → Agree (.ref r) (.ref r')

/-- Lists of values that agree. -/
abbrev Values.Agree : List Value → List Value → Prop := List.Forall₂ (Value.Agree p)

/-- Entries with one key and values that agree. -/
def Entry.Agree {κ : Type} (e e' : κ × Value) : Prop := e.1 = e'.1 ∧ Value.Agree p e.2 e'.2

/-- Tables with the same keys in one order and values that agree. -/
abbrev Table.Agree {κ : Type} : List (κ × Value) → List (κ × Value) → Prop :=
  List.Forall₂ (Entry.Agree p)

/-- Values that may arrive later and agree. -/
inductive Pending.Agree : Pending → Pending → Prop where
  | ready {v v' : Value} : Value.Agree p v v' → Agree (.ready v) (.ready v')
  | later {v v' : Value} : Value.Agree p v v' → Agree (.later v) (.later v')
  | failing : Agree .failing .failing
  | spent : Agree .spent .spent

/-- Objects of one kind with values that agree, the private attributes of host objects aside. -/
inductive Obj.Agree : Obj → Obj → Prop where
  | list {items items' : List Value} : Values.Agree p items items' →
      Agree (.list items) (.list items')
  | tuple {items items' : List Value} : Values.Agree p items items' →
      Agree (.tuple items) (.tuple items')
  | dict {entries entries' : Entries} : Table.Agree p entries entries' →
      Agree (.dict entries) (.dict entries')
  | frozen {entries entries' : Entries} : Table.Agree p entries entries' →
      Agree (.frozen entries) (.frozen entries')
  | record {attributes attributes' : Attributes} :
      Table.Agree p attributes.shown attributes'.shown →
      (p.spelled → Table.Agree p attributes attributes') →
      Agree (.record attributes) (.record attributes')
  | slots {a a' b b' : Option Value} : Option.Rel (Value.Agree p) a a' →
      Option.Rel (Value.Agree p) b b' → Agree (.slots a b) (.slots a' b')
  | arrow (params : List Text) (body : Expr) {frame frame' : Ref}
      {attributes attributes' : Attributes} : p.pairs frame frame' →
      Table.Agree p attributes attributes' →
      Agree (.arrow params body frame attributes) (.arrow params body frame' attributes')
  | method (m : Method) {self self' : Value} {attributes attributes' : Attributes} :
      Value.Agree p self self' → Table.Agree p attributes attributes' →
      Agree (.method m self attributes) (.method m self' attributes')
  | builtin (f : Builtin) {attributes attributes' : Attributes} :
      Table.Agree p attributes attributes' →
      Agree (.builtin f attributes) (.builtin f attributes')
  | host (f : HostFunction) {attributes attributes' : Attributes} :
      Table.Agree p attributes attributes' → Agree (.host f attributes) (.host f attributes')
  | pending {state state' : Pending} : Pending.Agree p state state' →
      Agree (.pending state) (.pending state')
  | frame {locals locals' globals globals' : Ref} {parent parent' : Option Ref} :
      p.pairs locals locals' → Option.Rel p.pairs parent parent' → p.pairs globals globals' →
      Agree (.frame locals parent globals) (.frame locals' parent' globals')
  | node {body body' : Value} {put put' : Option Value} : Value.Agree p body body' →
      Option.Rel (Value.Agree p) put put' → Agree (.node body put) (.node body' put')
  | expression (e : Expr) {inner inner' : Option Value} :
      Option.Rel (Value.Agree p) inner inner' → Agree (.expression e inner) (.expression e inner')

end

/-- The frames that an object at a place of the store refers to are older than the object. -/
def Obj.Rooted (r : Ref) : Obj → Prop
  | .arrow _ _ home _ => home < r
  | .frame _ (some parent) _ => parent < r
  | _ => True

/-- Frames stand in older frames, and functions of guards were written in older frames. -/
def Store.Rooted (s : Store) : Prop := ∀ (r : Ref) (o : Obj), s[r]? = some o → o.Rooted r

/-- Stores whose paired objects agree. -/
structure Store.Agree (p : Pairing) (s s' : Store) : Prop where
  /-- Paired objects agree. -/
  objects : ∀ r r', p.pairs r r' → Option.Rel (Obj.Agree p) s[r]? s'[r']?
  /-- Objects that are made from now on are paired in turn. -/
  fresh : ∀ i, p.pairs (s.size + i) (s'.size + i)
  /-- The frames of the first store. -/
  rooted : s.Rooted
  /-- The frames of the second store. -/
  rooted' : s'.Rooted

/-- Worlds that differ in private attributes only. -/
structure World.Agree (p : Pairing) (w w' : World) : Prop where
  /-- The stores agree. -/
  store : Store.Agree p w.store w'.store
  /-- The same calls were tracked. -/
  calls : w.calls.map shownItems = w'.calls.map shownItems
  /-- The time is the same. -/
  now : w.now = w'.now
  /-- Chance is the same. -/
  chance : w.chance = w'.chance

/-! ## Tables -/

namespace Table.Agree

variable {p : Pairing} {κ : Type} [BEq κ] {t t' : List (κ × Value)}

theorem lookup? (h : Table.Agree p t t') (key : κ) :
    Option.Rel (Value.Agree p) (Table.lookup? key t) (Table.lookup? key t') := by
  induction h with
  | nil => exact .none
  | @cons e e' _ _ he _ ih =>
    obtain ⟨k, v⟩ := e
    obtain ⟨_, v'⟩ := e'
    obtain ⟨rfl, hv⟩ := he
    rw [Table.lookup?, Table.lookup?]
    dsimp only at hv ⊢
    split
    · exact .some hv
    · exact ih

theorem insert (h : Table.Agree p t t') (key : κ) {v v' : Value} (hv : Value.Agree p v v') :
    Table.Agree p (Table.insert key v t) (Table.insert key v' t') := by
  induction h with
  | nil => exact .cons ⟨rfl, hv⟩ .nil
  | @cons e e' _ _ he hrest ih =>
    obtain ⟨k, u⟩ := e
    obtain ⟨_, u'⟩ := e'
    obtain ⟨rfl, hu⟩ := he
    rw [Table.insert, Table.insert]
    dsimp only at hu ⊢
    split
    · exact .cons ⟨rfl, hv⟩ hrest
    · exact .cons ⟨rfl, hu⟩ ih

theorem erase (h : Table.Agree p t t') (key : κ) :
    Table.Agree p (Table.erase key t) (Table.erase key t') := by
  induction h with
  | nil => exact .nil
  | @cons e e' _ _ he hrest ih =>
    obtain ⟨k, u⟩ := e
    obtain ⟨_, u'⟩ := e'
    obtain ⟨rfl, hu⟩ := he
    rw [Table.erase, Table.erase]
    dsimp only at hu ⊢
    split
    · exact hrest
    · exact .cons ⟨rfl, hu⟩ ih

theorem insertAll {u u' : List (κ × Value)} (h : Table.Agree p t t') (hu : Table.Agree p u u') :
    Table.Agree p (Table.insertAll t u) (Table.insertAll t' u') := by
  unfold Table.insertAll
  induction hu generalizing t t' with
  | nil => exact h
  | @cons e e' _ _ he _ ih =>
    obtain ⟨k, v⟩ := e
    obtain ⟨_, v'⟩ := e'
    obtain ⟨rfl, hv⟩ := he
    exact ih (h.insert k hv)

omit [BEq κ] in
/-- What is made of the values in tables that agree is the same if the values give the same. -/
theorem map_eq {α β : Type} (h : Table.Agree p t t') (name : κ → α) {f g : Value → β}
    (hfg : ∀ v v', Value.Agree p v v' → f v = g v') :
    (t.map fun e => (name e.1, f e.2)) = t'.map fun e => (name e.1, g e.2) := by
  refine List.Forall₂.map_eq h fun e e' he => ?_
  rw [he.1, hfg _ _ he.2]

omit [BEq κ] in
/-- The two attributes of an object that has room for two. -/
theorem slots {a a' b b' : Option Value} {k l : κ} (ha : Option.Rel (Value.Agree p) a a')
    (hb : Option.Rel (Value.Agree p) b b') :
    Table.Agree p (a.toList.map (k, ·) ++ b.toList.map (l, ·))
      (a'.toList.map (k, ·) ++ b'.toList.map (l, ·)) := by
  have hslot (k : κ) {v? v'? : Option Value} (h : Option.Rel (Value.Agree p) v? v'?) :
      Table.Agree p (v?.toList.map (k, ·)) (v'?.toList.map (k, ·)) := by
    cases h with
    | none => exact .nil
    | some h => exact .cons ⟨rfl, h⟩ .nil
  exact (hslot k ha).append (hslot l hb)

theorem shown {attributes attributes' : Attributes} (h : Table.Agree p attributes attributes') :
    Table.Agree p attributes.shown attributes'.shown :=
  h.filter (by rintro ⟨k, v⟩ ⟨_, v'⟩ ⟨rfl, -⟩; rfl)

end Table.Agree

/-! ## Private and other attributes -/

namespace Attributes

variable {attributes : Attributes} {name : Text} {v : Value}

theorem lookup?_shown (h : Store.isPrivate name = false) :
    Table.lookup? name attributes.shown = Table.lookup? name attributes := by
  unfold shown
  induction attributes with
  | nil => rfl
  | cons e rest ih =>
    obtain ⟨k, u⟩ := e
    rw [List.filter_cons, Table.lookup?]
    by_cases hk : k = name
    · simp [hk, h, Table.lookup?]
    · cases hprivate : Store.isPrivate k <;> simp [hprivate, Table.lookup?, hk, ih]

theorem shown_insert (h : Store.isPrivate name = false) :
    shown (Table.insert name v attributes) = Table.insert name v attributes.shown := by
  unfold shown
  induction attributes with
  | nil => simp [Table.insert, h]
  | cons e rest ih =>
    obtain ⟨k, u⟩ := e
    by_cases hk : k = name
    · simp [Table.insert, hk, h]
    · cases hprivate : Store.isPrivate k <;> simp [Table.insert, hk, hprivate, ih]

theorem hidden_insert (h : Store.isPrivate name = false) :
    hidden (Table.insert name v attributes) = attributes.hidden := by
  unfold hidden
  induction attributes with
  | nil => simp [Table.insert, h]
  | cons e rest ih =>
    obtain ⟨k, u⟩ := e
    by_cases hk : k = name
    · simp [Table.insert, hk, h]
    · cases hprivate : Store.isPrivate k <;> simp [Table.insert, hk, hprivate, ih]

end Attributes

end GuardedText
