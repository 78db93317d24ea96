import AuraDb.Engine.Read

/-! The cursors of the server: the ids of a planned result that are still to be sent. A fetch materialises its
page through the view it is handed; nothing in a cursor says who opened it. -/
namespace AuraDb
open Library Std
section
variable [Host] [Ranked]

def materializePage (src : Source) (q : FindQuery) (page : List Scored) (startRank : Nat) : Result (List Row) := do
  let schema ← src.requireSchema q.collection
  materializeRows src schema q startRank page

def Engine.readView (e : Engine) (txn : Option Transaction) (now : Nat) (collection : String) :
    Engine × Result Source :=
  match txn with
  | none => (e,.ok e.committedView)
  | some txn => match e.touchTxn txn.id now with
    | (e,.error err) => (e,.error err)
    | (e,.ok ()) => (e,e.txnView txn collection)

omit [Ranked] in
theorem Engine.readView_engine (e : Engine) (txn : Option Transaction) (now : Nat) (collection : String) :
    (e.readView txn now collection).1 = (txn.map (fun txn => (e.touchTxn txn.id now).1)).getD e := by
  cases txn with
  | none => rfl
  | some txn =>
    unfold Engine.readView
    dsimp only [Option.map_some,Option.getD_some]
    split
    · rename_i touched
      rw [touched]
    · rename_i touched
      rw [touched]

end

namespace Server

structure CursorEntry where
  query : FindQuery
  ordered : List Scored
  position : Nat
  baseRank : Nat
  lastUsed : Nat
  inside : position ≤ ordered.length

namespace CursorEntry

def stop (entry : CursorEntry) (limit : Nat) : Nat := min (entry.position + max limit 1) entry.ordered.length

def pageIds (entry : CursorEntry) (limit : Nat) : List Scored :=
  (entry.ordered.drop entry.position).take (entry.stop limit - entry.position)

def more (entry : CursorEntry) (limit : Nat) : Bool := decide (entry.stop limit < entry.ordered.length)

def advance (entry : CursorEntry) (limit now : Nat) : CursorEntry :=
  { entry with position := entry.stop limit, lastUsed := now, inside := Nat.min_le_right _ _ }

end CursorEntry

structure CursorPage where
  rows : List Row
  more : Bool

structure Fetched where
  held : Option CursorEntry
  engine : Engine
  page : Result CursorPage

/-- The cursor has moved on also where its page cannot be materialised, and is closed only with its last page.
-/
def fetchHeld [Host] [Ranked] (held : Option CursorEntry) (e : Engine) (txn : Option Transaction) (id limit now : Nat) :
    Fetched :=
  match held with
  | none => ⟨none,e,.error (.notFound ("cursor " ++ toString id))⟩
  | some entry => match e.readView txn now entry.query.collection with
    | (e,.error err) => ⟨some (entry.advance limit now),e,.error err⟩
    | (e,.ok src) =>
      match materializePage src entry.query (entry.pageIds limit) (entry.baseRank + entry.position) with
      | .error err => ⟨some (entry.advance limit now),e,.error err⟩
      | .ok rows => ⟨if entry.more limit then some (entry.advance limit now) else none,e,.ok ⟨rows,entry.more limit⟩⟩

section
variable [Host] [Ranked] {e : Engine} {txn : Option Transaction} {id limit now : Nat}

theorem fetchHeld_engine (entry : CursorEntry) :
    (fetchHeld (some entry) e txn id limit now).engine = (e.readView txn now entry.query.collection).1 := by
  unfold fetchHeld
  dsimp only
  split
  · rename_i viewed
    rw [viewed]
  · rename_i viewed
    rw [viewed]
    split <;> rfl

theorem fetchHeld_last {held : Option CursorEntry} {page : CursorPage}
    (found : (fetchHeld held e txn id limit now).page = .ok page) (last : page.more = false) :
    (fetchHeld held e txn id limit now).held = none := by
  unfold fetchHeld at found ⊢
  split at found
  · rfl
  split at found
  · cases found
  split at found
  · cases found
  · cases found
    exact if_neg (by simpa using last)

theorem fetchHeld_none {held : Option CursorEntry} (absent : held = none) :
    fetchHeld held e txn id limit now = ⟨none,e,.error (.notFound ("cursor " ++ toString id))⟩ := by
  rw [absent]
  rfl

end

structure CursorRegistry where
  nextId : Nat
  cursors : ExtTreeMap Nat CursorEntry compare
  timeout : Nat

namespace CursorRegistry

def new (timeout : Nat) : CursorRegistry := ⟨1,∅,timeout⟩

def openAt (r : CursorRegistry) (query : FindQuery) (ordered : List Scored) (baseRank now : Nat) : CursorRegistry :=
  { r with
    nextId := r.nextId + 1
    cursors := r.cursors.insert r.nextId ⟨query,ordered,0,baseRank,now,Nat.zero_le _⟩ }

def fetchWith [Host] [Ranked] (r : CursorRegistry) (e : Engine) (txn : Option Transaction) (id limit now : Nat) :
    CursorRegistry × Engine × Result CursorPage :=
  let turn := fetchHeld r.cursors[id]? e txn id limit now
  ({ r with cursors := r.cursors.alter id (fun _ => turn.held) },turn.engine,turn.page)

def close (r : CursorRegistry) (id : Nat) : CursorRegistry := { r with cursors := r.cursors.erase id }

def closeAll (r : CursorRegistry) (ids : List Nat) : CursorRegistry := ids.foldl close r

def reap (r : CursorRegistry) (now : Nat) : CursorRegistry :=
  { r with cursors := r.cursors.filter (fun _ entry => decide (now - entry.lastUsed < r.timeout)) }

variable (r : CursorRegistry)

theorem cursors_close (id other : Nat) :
    (r.close id).cursors[other]? = if id = other then none else r.cursors[other]? := by
  rw [close,TreeMap.getElem?_erase_eq]

theorem closeAll_same (ids : List Nat) :
    (r.closeAll ids).nextId = r.nextId ∧ (r.closeAll ids).timeout = r.timeout := by
  induction ids generalizing r with
  | nil => exact ⟨rfl,rfl⟩
  | cons id rest ih => exact ih (r.close id)

theorem cursors_closeAll (ids : List Nat) (other : Nat) :
    (r.closeAll ids).cursors[other]? = if other ∈ ids then none else r.cursors[other]? := by
  induction ids generalizing r with
  | nil => rfl
  | cons id rest ih =>
    rw [closeAll,List.foldl_cons,← closeAll,ih,cursors_close]
    by_cases later : other ∈ rest
    · simp [later]
    · by_cases same : id = other
      · simp [later,same]
      · simp [later,same,Ne.symm same]

theorem cursors_reap (now id : Nat) :
    (r.reap now).cursors[id]? = r.cursors[id]?.filter (fun entry => decide (now - entry.lastUsed < r.timeout)) := by
  rw [reap,ExtTreeMap.getElem?_filter']

end CursorRegistry

end Server

end AuraDb
