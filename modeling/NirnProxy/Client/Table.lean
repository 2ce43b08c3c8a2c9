import Mathlib.Data.List.AList

/-! The two maps of a `clientState` and what its critical sections do to them.  Bucket objects
are named by numbers, so that one object can stand under several keys. -/

universe v

namespace NirnProxy

section Size

variable {κ : Type v} [DecidableEq κ] {β : κ → Type} {m : AList β} {k : κ}

theorem length_keys_insert_of_mem {v : β k} (h : k ∈ m) :
    (m.insert k v).keys.length = m.keys.length := by
  have hk := AList.mem_keys.mp h
  rw [AList.keys_insert, List.length_cons, List.length_erase_of_mem hk]
  have := List.length_pos_of_mem hk
  omega

theorem length_keys_insert_of_notMem {v : β k} (h : k ∉ m) :
    (m.insert k v).keys.length = m.keys.length + 1 := by
  rw [AList.keys_insert, List.erase_of_not_mem fun hk => h (AList.mem_keys.mpr hk),
    List.length_cons]

theorem length_keys_erase_of_mem (h : k ∈ m) :
    ((m.erase k).keys.length : Int) = m.keys.length - 1 := by
  have hk := AList.mem_keys.mp h
  have := List.length_pos_of_mem hk
  rw [AList.keys_erase, List.length_erase_of_mem hk]
  omega

theorem mem_of_lookup_eq_some {v : β k} (h : m.lookup k = some v) : k ∈ m := by
  rw [← AList.lookup_isSome, h]
  rfl

end Size

structure RouteTable where
  buckets : AList fun _ : UInt64 => Nat
  aliases : AList fun _ : UInt64 => UInt64

/-- What `learnBucket` decides before it touches the maps.  `vacant` says that no bucket is
stored under `canonical`, in which case `target` is the current one. -/
structure LearnPlan where
  routeHash : UInt64
  canonical : UInt64
  target : Nat
  vacant : Bool
  aliasExists : Bool
  deleteRoute : Bool
  deriving DecidableEq

namespace LearnPlan

def additions (p : LearnPlan) : Int := (if p.vacant then 1 else 0) + if p.aliasExists then 0 else 1

def removals (p : LearnPlan) : Int := if p.deleteRoute then 1 else 0

end LearnPlan

namespace RouteTable

def empty : RouteTable := ⟨∅, ∅⟩

def size (t : RouteTable) : Int := t.buckets.keys.length + t.aliases.keys.length

def canonical (t : RouteTable) (routeHash : UInt64) : UInt64 :=
  (t.aliases.lookup routeHash).getD routeHash

def resolve (t : RouteTable) (routeHash : UInt64) : Option Nat :=
  t.buckets.lookup (t.canonical routeHash)

def create (t : RouteTable) (routeHash : UInt64) (fresh : Nat) : RouteTable :=
  { t with buckets := t.buckets.insert (t.canonical routeHash) fresh }

def plan (t : RouteTable) (routeHash canonical : UInt64) (current : Nat) : LearnPlan where
  routeHash := routeHash
  canonical := canonical
  target := (t.buckets.lookup canonical).getD current
  vacant := (t.buckets.lookup canonical).isNone
  aliasExists := (t.aliases.lookup routeHash).isSome
  deleteRoute := t.buckets.lookup routeHash = some current && routeHash != canonical

def withTarget (t : RouteTable) (p : LearnPlan) : AList fun _ : UInt64 => Nat :=
  if p.vacant then t.buckets.insert p.canonical p.target else t.buckets

def publish (t : RouteTable) (p : LearnPlan) : RouteTable where
  buckets := if p.deleteRoute then (t.withTarget p).erase p.routeHash else t.withTarget p
  aliases := t.aliases.insert p.routeHash p.canonical

def eraseBucket (t : RouteTable) (hash : UInt64) : RouteTable :=
  { t with buckets := t.buckets.erase hash }

def eraseAlias (t : RouteTable) (route : UInt64) : RouteTable :=
  { t with aliases := t.aliases.erase route }

def orphan (t : RouteTable) (route : UInt64) : Bool :=
  match t.aliases.lookup route with
  | some canonical => (t.buckets.lookup canonical).isNone
  | none => false

/-- The second loop of `sweep`. -/
def eraseOrphans (t : RouteTable) : RouteTable :=
  (t.aliases.keys.filter t.orphan).foldl eraseAlias t

variable {t : RouteTable} {r c : UInt64} {b : Nat}

theorem size_nonneg : 0 ≤ t.size := by
  unfold size
  omega

@[simp] theorem size_empty : empty.size = 0 := rfl

theorem size_create (h : t.resolve r = none) : (t.create r b).size = t.size + 1 := by
  have hn : t.canonical r ∉ t.buckets := AList.lookup_eq_none.mp h
  simp only [size, create, length_keys_insert_of_notMem hn]
  push_cast
  omega

theorem size_eraseBucket (h : c ∈ t.buckets) : (t.eraseBucket c).size = t.size - 1 := by
  simp only [size, eraseBucket, length_keys_erase_of_mem h]
  omega

theorem size_eraseAlias (h : r ∈ t.aliases) : (t.eraseAlias r).size = t.size - 1 := by
  simp only [size, eraseAlias, length_keys_erase_of_mem h]
  omega

theorem mem_aliases_of_orphan (h : t.orphan r = true) : r ∈ t.aliases := by
  unfold orphan at h
  split at h
  · exact mem_of_lookup_eq_some ‹_›
  · cases h

theorem length_aliases_publish :
    ((t.publish (t.plan r c b)).aliases.keys.length : Int) =
      t.aliases.keys.length + if (t.plan r c b).aliasExists then 0 else 1 := by
  change ((t.aliases.insert r c).keys.length : Int) =
    t.aliases.keys.length + if (t.aliases.lookup r).isSome then 0 else 1
  by_cases h : r ∈ t.aliases
  · rw [length_keys_insert_of_mem h, if_pos (AList.lookup_isSome.mpr h)]
    omega
  · rw [length_keys_insert_of_notMem h, if_neg fun hs => h (AList.lookup_isSome.mp hs)]
    push_cast
    rfl

theorem length_withTarget :
    ((t.withTarget (t.plan r c b)).keys.length : Int) =
      t.buckets.keys.length + if (t.plan r c b).vacant then 1 else 0 := by
  unfold withTarget
  split
  · have hn : c ∉ t.buckets := by
      rw [← AList.lookup_eq_none]
      simpa [plan] using ‹(t.plan r c b).vacant = true›
    change ((t.buckets.insert c _).keys.length : Int) = _
    rw [length_keys_insert_of_notMem hn]
    push_cast
    rfl
  · omega

theorem mem_withTarget_of_deleteRoute (h : (t.plan r c b).deleteRoute = true) :
    r ∈ t.withTarget (t.plan r c b) := by
  simp only [plan, Bool.and_eq_true, decide_eq_true_eq, bne_iff_ne, ne_eq] at h
  have hm := mem_of_lookup_eq_some h.1
  unfold withTarget
  split
  · exact (AList.mem_insert _).mpr (.inr hm)
  · exact hm

theorem length_buckets_publish :
    ((t.publish (t.plan r c b)).buckets.keys.length : Int) =
      t.buckets.keys.length + (if (t.plan r c b).vacant then 1 else 0) -
        (t.plan r c b).removals := by
  rw [← length_withTarget]
  unfold publish LearnPlan.removals
  split
  · exact length_keys_erase_of_mem (mem_withTarget_of_deleteRoute ‹_›)
  · exact (Int.sub_zero _).symm

/-- The additions and removals `learnBucket` reserves for are what publishing really does,
whichever of its keys and buckets coincide. -/
theorem size_publish :
    (t.publish (t.plan r c b)).size =
      t.size + (t.plan r c b).additions - (t.plan r c b).removals := by
  have h1 := length_aliases_publish (t := t) (r := r) (c := c) (b := b)
  have h2 := length_buckets_publish (t := t) (r := r) (c := c) (b := b)
  simp only [size, LearnPlan.additions] at *
  omega

variable {r' k : UInt64}

@[simp] theorem canonical_create : (t.create r b).canonical r' = t.canonical r' := rfl

theorem resolve_create :
    (t.create r b).resolve r' =
      if t.canonical r' = t.canonical r then some b else t.resolve r' := by
  unfold resolve
  rw [canonical_create]
  simp only [create]
  split
  · rw [‹t.canonical r' = _›, AList.lookup_insert]
  · exact AList.lookup_insert_ne ‹_›

theorem lookup_withTarget :
    (t.withTarget (t.plan r c b)).lookup k =
      if k = c then some (t.plan r c b).target else t.buckets.lookup k := by
  unfold withTarget
  by_cases hk : k = c
  · subst hk
    rw [if_pos rfl]
    split
    · exact AList.lookup_insert _
    · rename_i hv
      obtain ⟨x, hx⟩ := Option.ne_none_iff_exists'.mp (by simpa [plan] using hv)
      simp [plan, hx]
  · rw [if_neg hk]
    split
    · exact AList.lookup_insert_ne hk
    · rfl

theorem lookup_publish :
    (t.publish (t.plan r c b)).buckets.lookup k =
      if (t.plan r c b).deleteRoute = true ∧ k = r then none
      else if k = c then some (t.plan r c b).target else t.buckets.lookup k := by
  rw [← lookup_withTarget]
  unfold publish
  by_cases hd : (t.plan r c b).deleteRoute = true
  · by_cases hk : k = r
    · subst hk
      simp only [hd, and_self, if_true]
      exact AList.lookup_erase _ _
    · simp only [hd, hk, and_false, if_true, if_false]
      exact AList.lookup_erase_ne hk
  · simp [hd]

theorem canonical_publish :
    (t.publish (t.plan r c b)).canonical r' = if r' = r then c else t.canonical r' := by
  unfold canonical
  change ((t.aliases.insert r c).lookup r').getD r' = _
  split
  · subst r'
    rw [AList.lookup_insert]
    rfl
  · rw [AList.lookup_insert_ne ‹_›]

@[simp] theorem canonical_eraseBucket : (t.eraseBucket c).canonical r = t.canonical r := rfl

theorem lookup_eraseBucket :
    (t.eraseBucket c).buckets.lookup k = if k = c then none else t.buckets.lookup k := by
  unfold eraseBucket
  split
  · subst k
    exact AList.lookup_erase _ _
  · exact AList.lookup_erase_ne ‹_›

theorem buckets_foldl_eraseAlias (l : List UInt64) (t : RouteTable) :
    (l.foldl eraseAlias t).buckets = t.buckets := by
  induction l generalizing t with
  | nil => rfl
  | cons x l ih => exact ih _

theorem lookup_foldl_eraseAlias (l : List UInt64) (t : RouteTable) :
    (l.foldl eraseAlias t).aliases.lookup r = if r ∈ l then none else t.aliases.lookup r := by
  induction l generalizing t with
  | nil => rfl
  | cons x l ih =>
    rw [List.foldl_cons, ih]
    simp only [eraseAlias, List.mem_cons]
    by_cases hx : r = x
    · subst hx
      simp [AList.lookup_erase]
    · simp [hx, AList.lookup_erase_ne hx]

@[simp] theorem buckets_eraseOrphans : t.eraseOrphans.buckets = t.buckets :=
  buckets_foldl_eraseAlias _ _

theorem aliases_eraseOrphans :
    t.eraseOrphans.aliases.lookup r =
      if t.orphan r = true then none else t.aliases.lookup r := by
  have hm : r ∈ t.aliases.keys.filter t.orphan ↔ t.orphan r = true := by
    rw [List.mem_filter, ← AList.mem_keys]
    exact ⟨fun h => h.2, fun h => ⟨mem_aliases_of_orphan h, h⟩⟩
  rw [eraseOrphans, lookup_foldl_eraseAlias]
  simp only [hm]

theorem canonical_eraseOrphans (h : t.resolve r = some b) :
    t.eraseOrphans.canonical r = t.canonical r := by
  unfold canonical
  rw [aliases_eraseOrphans]
  unfold resolve canonical at h
  cases ha : t.aliases.lookup r with
  | none => simp
  | some k =>
    rw [ha, Option.getD_some] at h
    simp [orphan, ha, h]

theorem resolve_eraseOrphans (h : t.resolve r = some b) : t.eraseOrphans.resolve r = some b := by
  rw [resolve, canonical_eraseOrphans h, buckets_eraseOrphans]
  exact h

end RouteTable

end NirnProxy
