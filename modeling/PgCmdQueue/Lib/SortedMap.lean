import Mathlib.Data.List.Pairwise
import Mathlib.Data.List.Nodup
import Mathlib.Order.Lattice

/-!
# Maps that are ordered by their keys

A sorted list with each key once. There is one such list for a set of entries, whatever
the order in which they came.
-/

structure SortedMap (K V : Type*) [LinearOrder K] where
  entries : List (K × V)
  sorted : entries.Pairwise fun p q => p.1 < q.1

namespace SortedMap

variable {K V : Type*} [LinearOrder K] {p q : K × V} {l l' : List (K × V)}

/-- A key that is there already keeps its value. -/
def insertEntry (p : K × V) : List (K × V) → List (K × V)
  | [] => [p]
  | q :: rest =>
    if p.1 < q.1 then p :: q :: rest
    else if q.1 < p.1 then q :: insertEntry p rest
    else q :: rest

theorem mem_insertEntry (h : q ∈ insertEntry p l) : q = p ∨ q ∈ l := by
  induction l with
  | nil => exact .inl (List.mem_singleton.mp h)
  | cons r l ih =>
    unfold insertEntry at h
    split at h
    · exact List.mem_cons.mp h
    · split at h
      · rcases List.mem_cons.mp h with rfl | h
        · exact .inr List.mem_cons_self
        · exact (ih h).imp_right (List.mem_cons_of_mem r)
      · exact .inr h

theorem insertEntry_sorted (hl : l.Pairwise fun p q => p.1 < q.1) :
    (insertEntry p l).Pairwise fun p q => p.1 < q.1 := by
  induction l with
  | nil => exact List.pairwise_singleton _ _
  | cons q l ih =>
    obtain ⟨hq, hl'⟩ := List.pairwise_cons.mp hl
    unfold insertEntry
    split
    · rename_i hlt
      refine List.pairwise_cons.mpr ⟨?_, hl⟩
      intro r hr
      rcases List.mem_cons.mp hr with rfl | hr
      · exact hlt
      · exact lt_trans hlt (hq r hr)
    · split
      · rename_i hlt
        refine List.pairwise_cons.mpr ⟨?_, ih hl'⟩
        intro r hr
        rcases mem_insertEntry hr with rfl | hr
        · exact hlt
        · exact hq r hr
      · exact hl

theorem insertEntry_perm (hp : p.1 ∉ l.map (·.1)) : (insertEntry p l).Perm (p :: l) := by
  induction l with
  | nil => rfl
  | cons q l ih =>
    rw [List.map_cons, List.mem_cons, not_or] at hp
    unfold insertEntry
    split
    · rfl
    · rename_i hlt
      rw [if_pos (lt_of_le_of_ne (not_lt.mp hlt) (Ne.symm hp.1))]
      exact ((ih hp.2).cons q).trans (.swap p q l)

def insertNew (m : SortedMap K V) (p : K × V) : SortedMap K V :=
  ⟨insertEntry p m.entries, insertEntry_sorted m.sorted⟩

def ofList (l : List (K × V)) : SortedMap K V := l.foldl insertNew ⟨[], .nil⟩

theorem foldl_insertNew_perm {m : SortedMap K V} (hl : ((l ++ m.entries).map (·.1)).Nodup) :
    (l.foldl insertNew m).entries.Perm (l ++ m.entries) := by
  induction l generalizing m with
  | nil => rfl
  | cons p l ih =>
    have hnew : p.1 ∉ m.entries.map (·.1) := by
      rw [List.cons_append, List.map_cons, List.nodup_cons, List.map_append, List.mem_append] at hl
      exact fun h => hl.1 (.inr h)
    have hperm : (l ++ (m.insertNew p).entries).Perm (p :: (l ++ m.entries)) :=
      ((insertEntry_perm hnew).append_left l).trans List.perm_middle
    exact (ih ((hperm.map _).nodup_iff.mpr hl)).trans hperm

/-- The entries of the map are the sorted list of what it was made of. -/
theorem ofList_entries (hperm : l.Perm l') (hl' : l'.Pairwise fun p q => p.1 < q.1) :
    (ofList l).entries = l' := by
  have hnodup : (l.map (·.1)).Nodup := by
    rw [(hperm.map _).nodup_iff, List.Nodup, List.pairwise_map]
    exact hl'.imp ne_of_lt
  have hentries : (ofList l).entries.Perm l' := by
    have := foldl_insertNew_perm (m := ⟨[], .nil⟩) (l := l) (by simpa using hnodup)
    rw [List.append_nil] at this
    exact this.trans hperm
  refine hentries.eq_of_pairwise (fun p q _ _ hlt hgt => ?_) (ofList l).sorted hl'
  exact absurd hlt (lt_asymm hgt)

end SortedMap
