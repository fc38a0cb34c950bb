import Mathlib

namespace Mitosis
set_option autoImplicit true

/-! Rows that are selected by their keys, for one chunk of keys after the other. -/

namespace Chunks

theorem flatten_go (n : Nat) (xs : List α) (chunk : Array α) (chunks : Array (List α)) :
    (List.toChunks.go n xs chunk chunks).flatten = chunks.toList.flatten ++ chunk.toList ++ xs := by
  induction xs generalizing chunk chunks with
  | nil =>
    rw [List.toChunks.go, Array.toList_push, List.flatten_append, List.flatten_singleton,
      List.append_nil]
  | cons x xs ih =>
    rw [List.toChunks.go]
    split
    · rw [ih, Array.toList_push, List.flatten_append, List.flatten_singleton, Array.toList_push,
        List.append_assoc]
      rfl
    · rw [ih, Array.toList_push]
      simp only [List.append_assoc, List.singleton_append]

theorem flatten_toChunks (n : Nat) (xs : List α) : (xs.toChunks n).flatten = xs := by
  cases xs with
  | nil => rw [List.toChunks]; rfl
  | cons x xs =>
    cases n with
    | zero => exact List.append_nil _
    | succ n => exact flatten_go (n + 1) xs #[x] #[]

variable {κ ρ β : Type} [DecidableEq κ] (rows : List ρ) (key : ρ → κ)

def named (keys : List κ) : List ρ := rows.filter fun r => key r ∈ keys

def query (chunks : List (List κ)) : List ρ := chunks.flatMap (named rows key)

def Apart (chunks : List (List κ)) : Prop :=
  chunks.Pairwise fun c c' => ∀ r ∈ rows, key r ∈ c → key r ∉ c'

variable {rows : List ρ} {key : ρ → κ}

theorem mem_named {keys : List κ} : r ∈ named rows key keys ↔ r ∈ rows ∧ key r ∈ keys := by
  rw [named, List.mem_filter, decide_eq_true_eq]

theorem mem_query {chunks : List (List κ)} :
    r ∈ query rows key chunks ↔ r ∈ named rows key chunks.flatten := by
  rw [query, List.mem_flatMap, mem_named]
  constructor
  · rintro ⟨c, hc, hr⟩
    obtain ⟨hr, hk⟩ := mem_named.1 hr
    exact ⟨hr, List.mem_flatten.2 ⟨c, hc, hk⟩⟩
  · rintro ⟨hr, hk⟩
    obtain ⟨c, hc, hk⟩ := List.mem_flatten.1 hk
    exact ⟨c, hc, mem_named.2 ⟨hr, hk⟩⟩

theorem named_nodup (h : rows.Nodup) (keys : List κ) : (named rows key keys).Nodup := h.filter _

theorem query_nodup (h : rows.Nodup) (chunks : List (List κ)) :
    (query rows key chunks).Nodup ↔ Apart rows key chunks := by
  rw [query, List.nodup_flatMap]
  have hd : ∀ c c' : List κ, (Function.onFun List.Disjoint (named rows key)) c c' ↔
      ∀ r ∈ rows, key r ∈ c → key r ∉ c' := by
    intro c c'
    constructor
    · intro hd r hr hk hk'
      exact hd (mem_named.2 ⟨hr, hk⟩) (mem_named.2 ⟨hr, hk'⟩)
    · intro hd r hr hr'
      obtain ⟨hr, hk⟩ := mem_named.1 hr
      exact hd r hr hk (mem_named.1 hr').2
  constructor
  · rintro ⟨-, hp⟩
    exact hp.imp fun {c c'} => (hd c c').1
  · intro hp
    exact ⟨fun c _ => named_nodup h c, hp.imp fun {c c'} => (hd c c').2⟩

theorem map_query_perm_iff (h : rows.Nodup) (key : ρ → κ) (f : ρ → β) (chunks : List (List κ)) :
    ((query rows key chunks).map f).Perm ((named rows key chunks.flatten).map f) ↔
      Apart rows key chunks := by
  rw [← query_nodup h]
  have hn : (named rows key chunks.flatten).Nodup := named_nodup h _
  constructor
  · intro hp
    have hlen : (query rows key chunks).length = (named rows key chunks.flatten).length := by
      have hl := hp.length_eq
      rwa [List.length_map, List.length_map] at hl
    have hsub : (named rows key chunks.flatten).Subperm (query rows key chunks) :=
      hn.subperm fun r hr => mem_query.2 hr
    exact (hsub.perm_of_length_le (Nat.le_of_eq hlen)).nodup_iff.1 hn
  · intro hq
    exact ((List.perm_ext_iff_of_nodup hq hn).2 fun _ => mem_query).map f

end Chunks
end Mitosis
