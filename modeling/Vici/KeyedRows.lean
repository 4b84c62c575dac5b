import Mathlib

/-!
# Rows under keys, and locks on them

A statement which updates rows replaces each of them by its new version and
leaves the order of the table alone. A transaction holds the locks on its rows
until it ends.
-/
namespace Vici.KeyedRows

section
variable {α κ : Type*} [DecidableEq κ] (key : α → κ)

/-- The change under the row's key, or else the row itself. -/
def latest (changes : List α) (r : α) : α :=
  (changes.find? fun c => decide (key c = key r)).getD r

def overwrite (changes rows : List α) : List α := rows.map (latest key changes)

variable {changes rows : List α} {r c : α}

theorem key_latest (changes : List α) (r : α) : key (latest key changes r) = key r := by
  rw [latest]
  cases h : changes.find? fun c => decide (key c = key r) with
  | none => rfl
  | some c => exact of_decide_eq_true (List.find?_some (p := fun c => decide (key c = key r)) h)

variable {key}

theorem find?_of_notMem (h : key r ∉ changes.map key) :
    (changes.find? fun c => decide (key c = key r)) = none := by
  refine List.find?_eq_none.mpr fun c hc hkey => h ?_
  exact of_decide_eq_true hkey ▸ List.mem_map_of_mem hc

theorem find?_of_mem (h : key r ∈ changes.map key) :
    ∃ c ∈ changes, key c = key r ∧
      (changes.find? fun c => decide (key c = key r)) = some c := by
  obtain ⟨c, hc, hkey⟩ := List.mem_map.mp h
  have hsome : (changes.find? fun c => decide (key c = key r)).isSome :=
    List.find?_isSome.mpr ⟨c, hc, decide_eq_true hkey⟩
  obtain ⟨d, hd⟩ := Option.isSome_iff_exists.mp hsome
  exact ⟨d, List.mem_of_find?_eq_some hd, by simpa using List.find?_some hd, hd⟩

theorem latest_of_notMem (h : key r ∉ changes.map key) : latest key changes r = r := by
  rw [latest, find?_of_notMem h, Option.getD_none]

/-- Where there is a change under its key, a row becomes one of the changes. -/
theorem latest_mem (h : key r ∈ changes.map key) : latest key changes r ∈ changes := by
  obtain ⟨c, hc, _, hfind⟩ := find?_of_mem h
  rwa [latest, hfind, Option.getD_some]

@[simp] theorem overwrite_nil : overwrite key [] rows = rows :=
  List.map_id' rows

/-- No row appears, disappears or changes its key. -/
theorem map_key_overwrite : (overwrite key changes rows).map key = rows.map key := by
  rw [overwrite, List.map_map]
  exact List.map_congr_left fun r _ => key_latest key changes r

theorem change_mem_overwrite (hnodup : (changes.map key).Nodup) (hc : c ∈ changes)
    (hkey : key c ∈ rows.map key) : c ∈ overwrite key changes rows := by
  obtain ⟨r, hr, hrc⟩ := List.mem_map.mp hkey
  have hmem : latest key changes r ∈ changes := latest_mem (hrc ▸ List.mem_map_of_mem hc)
  refine List.mem_map.mpr ⟨r, hr, List.inj_on_of_nodup_map hnodup hmem hc ?_⟩
  exact (key_latest key changes r).trans hrc

theorem mem_overwrite_of_notMem (hr : r ∈ rows) (h : key r ∉ changes.map key) :
    r ∈ overwrite key changes rows := List.mem_map.mpr ⟨r, hr, latest_of_notMem h⟩

theorem mem_overwrite (h : r ∈ overwrite key changes rows) :
    r ∈ changes ∨ r ∈ rows ∧ key r ∉ changes.map key := by
  obtain ⟨q, hq, rfl⟩ := List.mem_map.mp h
  by_cases hkey : key q ∈ changes.map key
  · exact .inl (latest_mem hkey)
  · rw [latest_of_notMem hkey]
    exact .inr ⟨hq, hkey⟩

/-- A change under a further key may be made afterwards. -/
theorem overwrite_concat (h : key c ∉ changes.map key) :
    overwrite key (changes ++ [c]) rows = overwrite key [c] (overwrite key changes rows) := by
  rw [overwrite, overwrite, overwrite, List.map_map]
  apply List.map_congr_left
  intro r _
  by_cases hr : key r ∈ changes.map key
  · obtain ⟨d, hd, _, hfind⟩ := find?_of_mem hr
    have hne : key d ∉ [c].map key := by
      intro hmem
      rw [List.map_singleton, List.mem_singleton] at hmem
      exact h (hmem ▸ List.mem_map_of_mem hd)
    have hlatest : latest key changes r = d := by rw [latest, hfind, Option.getD_some]
    rw [Function.comp, hlatest, latest_of_notMem hne, latest, List.find?_append, hfind]
    rfl
  · rw [Function.comp, latest_of_notMem hr, latest, latest, List.find?_append,
      find?_of_notMem hr, Option.none_or]

end

section
variable {α κ : Type*} [DecidableEq κ] (key : α → κ)

def upsert (c : α) (rows : List α) : List α :=
  if key c ∈ rows.map key then overwrite key [c] rows else rows ++ [c]

variable {key} {rows : List α} {r c : α}

theorem nodup_map_upsert (h : (rows.map key).Nodup) : ((upsert key c rows).map key).Nodup := by
  unfold upsert
  split_ifs with hkey
  · rw [map_key_overwrite]
    exact h
  · rw [List.map_append, List.map_singleton]
    exact h.append (List.nodup_singleton _) (List.disjoint_singleton.mpr hkey)

theorem mem_upsert (h : r ∈ upsert key c rows) : r = c ∨ r ∈ rows := by
  unfold upsert at h
  split_ifs at h with hkey
  · rcases mem_overwrite h with hr | ⟨hr, _⟩
    · exact .inl (List.mem_singleton.mp hr)
    · exact .inr hr
  · rcases List.mem_append.mp h with hr | hr
    · exact .inr hr
    · exact .inl (List.mem_singleton.mp hr)

/-- The row is there afterwards, whether its key was taken or not. -/
theorem mem_upsert_self : c ∈ upsert key c rows := by
  unfold upsert
  split_ifs with hkey
  · exact change_mem_overwrite (List.nodup_singleton _) (List.mem_singleton_self _) hkey
  · exact List.mem_append_right _ (List.mem_singleton_self _)

theorem mem_upsert_of_ne (hr : r ∈ rows) (hne : key r ≠ key c) : r ∈ upsert key c rows := by
  unfold upsert
  split_ifs
  · exact mem_overwrite_of_notMem hr (by simpa using hne)
  · exact List.mem_append_left _ hr

end

section
variable {α κ : Type*} [DecidableEq κ] (key : α → κ) (row : List α → κ → α)

/-- A row is made for the key and added at the end, unless the key is taken. -/
def addAbsent (rows : List α) (k : κ) : List α :=
  if k ∈ rows.map key then rows else rows ++ [row rows k]

def addAllAbsent (ks : List κ) (rows : List α) : List α := ks.foldl (addAbsent key row) rows

variable {key row} {rows : List α} {k : κ} {ks : List κ}

theorem addAbsent_of_mem (h : k ∈ rows.map key) : addAbsent key row rows k = rows := if_pos h

theorem addAbsent_of_notMem (h : k ∉ rows.map key) :
    addAbsent key row rows k = rows ++ [row rows k] := if_neg h

theorem prefix_addAbsent (rows : List α) (k : κ) : rows <+: addAbsent key row rows k := by
  unfold addAbsent
  split_ifs
  · exact List.prefix_rfl
  · exact List.prefix_append _ _

theorem prefix_addAllAbsent (ks : List κ) (rows : List α) :
    rows <+: addAllAbsent key row ks rows := by
  induction ks generalizing rows with
  | nil => exact List.prefix_rfl
  | cons k ks ih => exact (prefix_addAbsent rows k).trans (ih _)

/-- What each added row keeps, adding them all keeps. -/
theorem addAllAbsent_invariant {P : List α → Prop}
    (hrow : ∀ rows, ∀ k ∈ ks, P rows → P (rows ++ [row rows k])) (h : P rows) :
    P (addAllAbsent key row ks rows) := by
  induction ks generalizing rows with
  | nil => exact h
  | cons k ks ih =>
      refine ih (fun rows k hk => hrow rows k (List.mem_cons_of_mem _ hk)) ?_
      unfold addAbsent
      split_ifs
      · exact h
      · exact hrow rows k List.mem_cons_self h

variable (hkey : ∀ rows k, key (row rows k) = k)
include hkey

theorem mem_map_addAbsent {i : κ} :
    i ∈ (addAbsent key row rows k).map key ↔ i ∈ rows.map key ∨ i = k := by
  unfold addAbsent
  split_ifs with hmem
  · constructor
    · exact Or.inl
    · intro h
      rcases h with h | rfl
      · exact h
      · exact hmem
  · rw [List.map_append, List.map_singleton, hkey, List.mem_append, List.mem_singleton]

/-- The keys are those of the table and those which were given. -/
theorem mem_map_addAllAbsent {i : κ} :
    i ∈ (addAllAbsent key row ks rows).map key ↔ i ∈ rows.map key ∨ i ∈ ks := by
  induction ks generalizing rows with
  | nil => simp [addAllAbsent]
  | cons k ks ih =>
      have hrest : i ∈ (addAllAbsent key row (k :: ks) rows).map key ↔
        i ∈ (addAbsent key row rows k).map key ∨ i ∈ ks := ih
      rw [hrest, mem_map_addAbsent hkey, List.mem_cons, or_assoc]

theorem nodup_map_addAbsent (h : (rows.map key).Nodup) :
    ((addAbsent key row rows k).map key).Nodup := by
  unfold addAbsent
  split_ifs with hmem
  · exact h
  · rw [List.map_append, List.map_singleton, hkey]
    exact h.append (List.nodup_singleton k) (List.disjoint_singleton.mpr hmem)

theorem nodup_map_addAllAbsent (h : (rows.map key).Nodup) :
    ((addAllAbsent key row ks rows).map key).Nodup := by
  induction ks generalizing rows with
  | nil => exact h
  | cons k ks ih => exact ih (nodup_map_addAbsent hkey h)

omit hkey

/-- Keys which are taken add nothing. -/
theorem addAllAbsent_of_subset (h : ks ⊆ rows.map key) : addAllAbsent key row ks rows = rows := by
  induction ks with
  | nil => rfl
  | cons k ks ih =>
      obtain ⟨hk, hks⟩ := List.cons_subset.mp h
      rw [addAllAbsent, List.foldl_cons, addAbsent_of_mem hk]
      exact ih hks

end

section
variable {α β κ : Type*}

/-- Under distinct keys a search by key finds the one row which has it. -/
theorem find?_key_eq_some [DecidableEq κ] {key : α → κ} {rows : List α}
    (hnodup : (rows.map key).Nodup) {k : κ} {r : α} :
    (rows.find? fun r => decide (key r = k)) = some r ↔ r ∈ rows ∧ key r = k := by
  constructor
  · intro h
    exact ⟨List.mem_of_find?_eq_some h, by simpa using List.find?_some h⟩
  · rintro ⟨hr, rfl⟩
    obtain ⟨q, hq⟩ : ∃ q, (rows.find? fun q => decide (key q = key r)) = some q :=
      Option.isSome_iff_exists.mp (List.find?_isSome.mpr ⟨r, hr, by simp⟩)
    have hkey : key q = key r := by simpa using List.find?_some hq
    rw [hq, List.inj_on_of_nodup_map hnodup (List.mem_of_find?_eq_some hq) hr hkey]

/-- A row under a new key may be added at the end. -/
theorem nodup_map_concat {key : α → κ} {rows : List α} {r : α} (hnodup : (rows.map key).Nodup)
    (hnew : key r ∉ rows.map key) : ((rows ++ [r]).map key).Nodup := by
  rw [List.map_append, List.map_singleton]
  exact hnodup.append (List.nodup_singleton _) (List.disjoint_singleton.mpr hnew)

/-- At most one row has a given key. -/
theorem length_filter_key_le_one [DecidableEq κ] {key : α → κ} {rows : List α}
    (hnodup : (rows.map key).Nodup) (k : κ) :
    (rows.filter fun r => decide (key r = k)).length ≤ 1 := by
  have hcount : (rows.map key).count k ≤ 1 := List.nodup_iff_count_le_one.mp hnodup k
  rw [List.count, List.countP_map, List.countP_eq_length_filter] at hcount
  simpa [Function.comp_def, beq_eq_decide] using hcount

theorem length_flatMap_le_one {f : α → List β} {l : List α} (hl : l.length ≤ 1)
    (hf : ∀ a, (f a).length ≤ 1) : (l.flatMap f).length ≤ 1 := by
  cases l with
  | nil => exact Nat.zero_le 1
  | cons a l =>
      obtain rfl : l = [] := List.length_eq_zero_iff.mp (by simpa using hl)
      simpa using hf a

/-- A join which finds at most one partner of each row has at most the keys of the table. -/
theorem map_flatMap_sublist {f : α → List β} {g : β → κ} {key : α → κ} {rows : List α}
    (hone : ∀ r ∈ rows, (f r).length ≤ 1) (hkey : ∀ r ∈ rows, ∀ b ∈ f r, g b = key r) :
    ((rows.flatMap f).map g).Sublist (rows.map key) := by
  induction rows with
  | nil => exact List.Sublist.slnil
  | cons r rows ih =>
      have hrest : ((rows.flatMap f).map g).Sublist (rows.map key) :=
        ih (fun q hq => hone q (List.mem_cons_of_mem _ hq))
          fun q hq => hkey q (List.mem_cons_of_mem _ hq)
      have hr : r ∈ r :: rows := List.mem_cons_self
      rw [List.flatMap_cons, List.map_append, List.map_cons]
      match hf : f r with
      | [] => exact hrest.cons _
      | [b] =>
          rw [List.map_singleton, hkey r hr b (by simp [hf])]
          exact hrest.cons_cons _
      | b :: c :: l =>
          have := hone r hr
          simp [hf] at this

end

section
variable {α κ : Type*} {rows rows' rows'' : List α} {keys keys' : List κ}

/-- Every row refers to a key which exists. -/
def Refers (f : α → κ) (keys : List κ) (rows : List α) : Prop := ∀ r ∈ rows, f r ∈ keys

theorem Refers.concat {f : α → κ} {r : α} (h : Refers f keys rows) (hr : f r ∈ keys) :
    Refers f keys (rows ++ [r]) := by
  intro q hq
  rcases List.mem_append.mp hq with hq | hq
  · exact h q hq
  · rwa [List.mem_singleton.mp hq]

theorem Refers.mono {f : α → κ} (h : Refers f keys rows) (hkeys : keys ⊆ keys') :
    Refers f keys' rows := fun r hr => hkeys (h r hr)

theorem refers_iff {f : α → κ} : Refers f keys rows ↔ rows.map f ⊆ keys := by
  simp [Refers, List.subset_def]

/-- Versions which agree in a column fill it alike. -/
theorem map_eq_of_forall₂ {later : α → α → Prop} {f : α → κ}
    (hf : ∀ {r r'}, later r r' → f r' = f r) (h : List.Forall₂ later rows rows') :
    rows'.map f = rows.map f := by
  induction h with
  | nil => rfl
  | cons hr _ ih => rw [List.map_cons, List.map_cons, hf hr, ih]

/-- Each version is one of a row. -/
theorem exists_of_forall₂ {β : Type*} {later : α → β → Prop} {rows' : List β}
    (h : List.Forall₂ later rows rows') {r' : β} (hr' : r' ∈ rows') : ∃ r ∈ rows, later r r' := by
  induction h with
  | nil => cases hr'
  | cons hlater _ ih =>
      rcases List.mem_cons.mp hr' with rfl | hr'
      · exact ⟨_, List.mem_cons_self, hlater⟩
      · obtain ⟨r, hr, hlater⟩ := ih hr'
        exact ⟨r, List.mem_cons_of_mem _ hr, hlater⟩

/-- Every row stays in its place, as a later version of itself. -/
def Evolves (later : α → α → Prop) (rows rows' : List α) : Prop :=
  ∀ (i : ℕ) (r : α), rows[i]? = some r → ∃ r', rows'[i]? = some r' ∧ later r r'

namespace Evolves
variable {later : α → α → Prop}

theorem refl (hrefl : ∀ r, later r r) (rows : List α) : Evolves later rows rows :=
  fun _ r hr => ⟨r, hr, hrefl r⟩

theorem trans (htrans : ∀ {a b c}, later a b → later b c → later a c)
    (h : Evolves later rows rows') (h' : Evolves later rows' rows'') :
    Evolves later rows rows'' := by
  intro i r hr
  obtain ⟨q, hq, hrq⟩ := h i r hr
  obtain ⟨p, hp, hqp⟩ := h' i q hq
  exact ⟨p, hp, htrans hrq hqp⟩

theorem append (hrefl : ∀ r, later r r) (rows new : List α) :
    Evolves later rows (rows ++ new) := by
  intro i r hr
  obtain ⟨hi, _⟩ := List.getElem?_eq_some_iff.mp hr
  exact ⟨r, by rwa [List.getElem?_append_left hi], hrefl r⟩

theorem map {f : α → α} (hf : ∀ r ∈ rows, later r (f r)) : Evolves later rows (rows.map f) := by
  intro i r hr
  exact ⟨f r, by rw [List.getElem?_map, hr, Option.map_some], hf r (List.mem_of_getElem? hr)⟩

theorem of_forall₂ (h : List.Forall₂ later rows rows') : Evolves later rows rows' := by
  obtain ⟨hlength, hget⟩ := List.forall₂_iff_get.mp h
  intro i r hr
  obtain ⟨hi, rfl⟩ := List.getElem?_eq_some_iff.mp hr
  have hi' : i < rows'.length := hlength ▸ hi
  exact ⟨rows'[i], List.getElem?_eq_getElem hi', hget i hi hi'⟩

theorem mem (h : Evolves later rows rows') {r : α} (hr : r ∈ rows) : ∃ r' ∈ rows', later r r' := by
  obtain ⟨i, hi⟩ := List.getElem?_of_mem hr
  obtain ⟨r', hr', hlater⟩ := h i r hi
  exact ⟨r', List.mem_of_getElem? hr', hlater⟩

end Evolves

end

section
variable {α β : Type*} {R R' : α → β → Prop} {rows : List α} {things things' : List β}

/-- The things are those which were made for the rows, one for each, in some order. -/
def Assigned (R : α → β → Prop) (rows : List α) (things : List β) : Prop :=
  ∃ made, made.Perm things ∧ List.Forall₂ R rows made

namespace Assigned

theorem nil : Assigned R [] [] := ⟨[], .refl _, .nil⟩

theorem perm (h : Assigned R rows things) (hperm : things.Perm things') :
    Assigned R rows things' := by
  obtain ⟨made, hmade, hall⟩ := h
  exact ⟨made, hmade.trans hperm, hall⟩

theorem concat {r : α} {b : β} (h : Assigned R rows things) (hr : R r b) :
    Assigned R (rows ++ [r]) (things ++ [b]) := by
  obtain ⟨made, hmade, hall⟩ := h
  exact ⟨made ++ [b], hmade.append_right _, List.rel_append hall (.cons hr .nil)⟩

theorem mono (h : Assigned R rows things) (hR : ∀ r ∈ rows, ∀ b, R r b → R' r b) :
    Assigned R' rows things := by
  obtain ⟨made, hmade, hall⟩ := h
  obtain ⟨hlength, hzip⟩ := List.forall₂_iff_zip.mp hall
  refine ⟨made, hmade, List.forall₂_iff_zip.mpr ⟨hlength, fun {r b} hmem => ?_⟩⟩
  exact hR r (List.of_mem_zip hmem).1 b (hzip hmem)

end Assigned

end

/-- The transaction which holds the row of a key. -/
abbrev Locks (κ τ : Type*) := κ → Option τ

namespace Locks
variable {κ τ : Type*} {locks : Locks κ τ} {t u : τ} {k : κ}

def acquire [DecidableEq κ] (locks : Locks κ τ) (t : τ) (ks : List κ) : Locks κ τ :=
  fun k => if k ∈ ks then some t else locks k

def release [DecidableEq τ] (locks : Locks κ τ) (t : τ) : Locks κ τ :=
  fun k => if locks k = some t then none else locks k

theorem acquire_of_mem [DecidableEq κ] {ks : List κ} (h : k ∈ ks) :
    locks.acquire t ks k = some t := if_pos h

/-- A lock which is held is not taken away by those who take free ones. -/
theorem acquire_of_held [DecidableEq κ] {ks : List κ} (hfree : ∀ k ∈ ks, locks k = none)
    (h : locks k = some u) : locks.acquire t ks k = some u := by
  have hk : k ∉ ks := fun hk => by simp [hfree k hk] at h
  rw [acquire, if_neg hk, h]

theorem release_of_held [DecidableEq τ] (hne : u ≠ t) (h : locks k = some u) :
    locks.release t k = some u := by
  have hk : ¬locks k = some t := by simpa [h] using hne
  rw [release, if_neg hk, h]

theorem release_eq_some [DecidableEq τ] :
    locks.release t k = some u ↔ u ≠ t ∧ locks k = some u := by
  unfold release
  split_ifs with hheld
  · simp [hheld, eq_comm]
  · constructor
    · intro h
      exact ⟨fun hut => hheld (hut ▸ h), h⟩
    · exact And.right

theorem acquire_singleton_eq_some [DecidableEq κ] {j : κ} (hfree : locks j = none) :
    locks.acquire t [j] k = some u ↔ (k = j ∧ u = t) ∨ locks k = some u := by
  simp only [acquire, List.mem_singleton]
  split_ifs with hk
  · simp [hk, hfree, eq_comm]
  · simp [hk]

end Locks

end Vici.KeyedRows
