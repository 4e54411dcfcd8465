import Armsx3.Library.Keyed
import Armsx3.Rsx.DrawClause

/-!
# DrawClauseOrder — where the barriers of a draw clause are

Barriers are executed by walking over their list with the draw ids, so the modifiers have to be in the order of their
draw ids, and no restart of a primitive may be in front of them that belongs to a later draw.
-/

namespace Armsx3.Rsx

open List Bool Nat

variable {L : List Barrier} {v : Barrier}

/-! ## Lists of barriers -/

/-- Restarts of primitives before the first modifier of a clause, those of its range, and the modifiers. -/
structure Layered (L A R M : List Barrier) : Prop where
  eq : L = A ++ (R ++ M)
  restarts : ∀ b ∈ A ++ R, b.isModifier = false
  modifiers : ∀ b ∈ M, b.isModifier = true
  below : ∀ a ∈ A, ∀ b ∈ R ++ M, a.drawId < b.drawId
  sorted : Keyed.Sorted (·.drawId) (R ++ M)
  first : M = [] → R = []

def Ordered (L : List Barrier) : Prop := ∃ A R M, Layered L A R M

def modifiersOf (L : List Barrier) : List Barrier := L.filter (·.isModifier)

variable {b : Barrier}

theorem mem_modifiersOf : b ∈ modifiersOf L ↔ b ∈ L ∧ b.isModifier = true := mem_filter

theorem modifiersOf_append (L L' : List Barrier) : modifiersOf (L ++ L') = modifiersOf L ++ modifiersOf L' :=
  filter_append ..

theorem modifiersOf_restarts (h : ∀ b ∈ L, b.isModifier = false) : modifiersOf L = [] :=
  filter_eq_nil_iff.mpr fun b hb => by
    rw [h b hb]
    exact false_ne_true

theorem Layered.modifiersOf_eq {A R M : List Barrier} (h : Layered L A R M) : modifiersOf L = M := by
  have hmods : modifiersOf M = M := filter_eq_self.mpr h.modifiers
  rw [h.eq, ← append_assoc, modifiersOf_append, modifiersOf_restarts h.restarts, hmods, nil_append]

theorem Ordered.sorted (h : Ordered L) : Keyed.Sorted (·.drawId) (modifiersOf L) := by
  have ⟨A, R, M, hL⟩ := h
  rw [hL.modifiersOf_eq]
  exact (pairwise_append.mp hL.sorted).2.1

theorem Ordered.of_restarts (h : ∀ b ∈ L, b.isModifier = false) : Ordered L :=
  ⟨L, [], [], (append_nil L).symm, by rwa [append_nil], nofun, nofun, List.Pairwise.nil, fun _ => rfl⟩

theorem Ordered.execute (h : Ordered L) (k : Nat) :
    modifiersOf ((L.dropWhile fun b => b.drawId < k).takeWhile fun b => b.drawId = k) =
      (modifiersOf L).filter fun b => b.drawId = k := by
  have ⟨A, R, M, hL⟩ := h
  by_cases hA : ∀ a ∈ A, a.drawId < k
  · -- the cursor is past the restarts of earlier draws
    have hdrop : L.dropWhile (fun b => b.drawId < k) = (R ++ M).dropWhile fun b => b.drawId < k := by
      rw [hL.eq]
      exact dropWhile_append_of_pos fun a ha => decide_eq_true (hA a ha)
    have hmods : modifiersOf L = modifiersOf (R ++ M) := by
      rw [hL.eq, modifiersOf_append, modifiersOf_restarts fun b hb => hL.restarts b (mem_append_left _ hb), nil_append]
    rw [hdrop, hL.sorted.takeWhile_dropWhile, hmods]
    exact filter_comm ..
  · -- the draw is before all modifiers
    have ⟨a, ha, hle⟩ : ∃ a ∈ A, k ≤ a.drawId := by
      by_contra hnone
      exact hA fun a ha => Nat.lt_of_not_le fun hle => hnone ⟨a, ha, hle⟩
    have hlater : ∀ b ∈ modifiersOf L, b.drawId ≠ k := by
      intro b hb hk
      rw [hL.modifiersOf_eq] at hb
      have hlt := hL.below a ha b (mem_append_right _ hb)
      omega
    rw [filter_eq_nil_iff.mpr fun b hb heq => hlater b hb (of_decide_eq_true heq)]
    refine filter_eq_nil_iff.mpr fun b hb hmod => ?_
    have hp := mem_takeWhile_imp hb
    have hk := of_decide_eq_true hp
    have hmem := (dropWhile_sublist _).subset ((takeWhile_sublist _).subset hb)
    exact hlater b (mem_modifiersOf.mpr ⟨hmem, hmod⟩) hk

theorem Ordered.renumber (h : Ordered L) {f : Barrier → Barrier} (htype : ∀ b, (f b).isModifier = b.isModifier)
    (hlt : ∀ a b, a.drawId < b.drawId → (f a).drawId < (f b).drawId)
    (hle : ∀ a b, a.drawId ≤ b.drawId → (f a).drawId ≤ (f b).drawId) : Ordered (L.map f) := by
  have ⟨A, R, M, hL⟩ := h
  refine ⟨A.map f, R.map f, M.map f, ?_, ?_, ?_, ?_, ?_, ?_⟩
  · rw [hL.eq, map_append, map_append]
  · intro b hb
    rw [← map_append] at hb
    have ⟨a, ha, hab⟩ := mem_map.mp hb
    rw [← hab, htype]
    exact hL.restarts a ha
  · intro b hb
    have ⟨a, ha, hab⟩ := mem_map.mp hb
    rw [← hab, htype]
    exact hL.modifiers a ha
  · intro a' ha' b' hb'
    rw [← map_append] at hb'
    have ⟨a, ha, haa'⟩ := mem_map.mp ha'
    have ⟨b, hb, hbb'⟩ := mem_map.mp hb'
    rw [← haa', ← hbb']
    exact hlt a b (hL.below a ha b hb)
  · rw [← map_append]
    exact List.Pairwise.map f (fun a b => hle a b) hL.sorted
  · intro hnil
    rw [hL.first (map_eq_nil_iff.mp hnil)]
    rfl

/-! ## Inserting a barrier -/

theorem mem_insertBarrierLoop (hb : b ∈ insertBarrierLoop v L) : b = v ∨ b ∈ L := by
  induction L with
  | nil => cases hb
  | cons a rest ih =>
    unfold insertBarrierLoop at hb
    split at hb
    · rcases mem_cons.mp hb with hb | hb
      · exact .inr (hb ▸ mem_cons_self)
      · exact (ih hb).imp_right (mem_cons_of_mem a)
    · exact mem_cons.mp hb

theorem mem_doBarrierInsert (hb : b ∈ doBarrierInsert L v) : b = v ∨ b ∈ L := by
  unfold doBarrierInsert at hb
  split at hb
  · rcases mem_append.mp hb with hb | hb
    · exact .inr hb
    · exact .inl (mem_singleton.mp hb)
  · exact mem_insertBarrierLoop hb

theorem modifiersOf_insert_restart (hv : v.isModifier = false) : modifiersOf (doBarrierInsert L v) = modifiersOf L := by
  have hcons : ∀ rest, modifiersOf (v :: rest) = modifiersOf rest := fun rest =>
    filter_cons_of_neg (by rw [hv]; exact false_ne_true)
  have hloop : modifiersOf (insertBarrierLoop v L) = modifiersOf L := by
    induction L with
    | nil => rfl
    | cons a rest ih =>
      unfold insertBarrierLoop
      split
      · show filter _ (a :: _) = filter _ (a :: _)
        rw [filter_cons, filter_cons]
        exact congrArg (fun xs => if a.isModifier = true then a :: xs else xs) ih
      · exact hcons _
  unfold doBarrierInsert
  split
  · rw [modifiersOf_append, hcons]
    exact append_nil _
  · exact hloop

theorem doBarrierInsert_before {M : List Barrier} {K : List Barrier} (hM : M ≠ [])
    (hK : ∀ b ∈ K, b.lt v = true) (hlt : ∀ b ∈ M, b.lt v = false) : doBarrierInsert (K ++ M) v = K ++ v :: M := by
  have hlast : ¬(K ++ M).getLast?.all (·.lt v) = true := by
    rw [getLast?_append_of_ne_nil _ hM, getLast?_eq_some_getLast hM, Option.all_some, hlt _ (getLast_mem hM)]
    exact false_ne_true
  unfold doBarrierInsert
  rw [if_neg hlast]
  clear hlast
  induction K with
  | nil =>
    cases M with
    | nil => exact absurd rfl hM
    | cons m =>
      show (if m.lt v = true then _ else _) = _
      rw [hlt m mem_cons_self, if_neg Bool.false_ne_true]
      rfl
  | cons a K ih =>
    show (if a.lt v = true then a :: insertBarrierLoop v (K ++ M) else _) = _
    rw [if_pos (hK a mem_cons_self), ih fun b hb => hK b (mem_cons_of_mem a hb)]
    rfl

theorem doBarrierInsert_last (h : ∀ b ∈ L, b.lt v = true) : doBarrierInsert L v = L ++ [v] := by
  unfold doBarrierInsert
  rw [if_pos]
  cases hlast : L.getLast? with
  | none => rfl
  | some b => exact h b (mem_of_getLast? hlast)

theorem Ordered.push (h : Ordered L) (hv : v.isModifier = true) (hle : ∀ b ∈ modifiersOf L, b.drawId ≤ v.drawId)
    (hlt : modifiersOf L = [] → ∀ b ∈ L, b.drawId < v.drawId) : Ordered (L ++ [v]) := by
  have ⟨A, R, M, hL⟩ := h
  rw [hL.modifiersOf_eq] at hle hlt
  have hsorted := pairwise_append.mp hL.sorted
  -- everything is at or before the draw of the new modifier
  have hRM : ∀ b ∈ R ++ M, b.drawId ≤ v.drawId := by
    intro b hb
    rcases mem_append.mp hb with hR | hM
    · cases M with
      | nil =>
        rw [hL.first rfl] at hR
        cases hR
      | cons m =>
        exact le_trans (hsorted.2.2 b hR m mem_cons_self) (hle m mem_cons_self)
    · exact hle b hM
  have hA : ∀ a ∈ A, a.drawId < v.drawId := by
    intro a ha
    cases M with
    | nil => exact hlt rfl a (hL.eq ▸ mem_append_left _ ha)
    | cons m =>
      have hbelow := hL.below a ha m (mem_append_right _ mem_cons_self)
      exact lt_of_lt_of_le hbelow (hle m mem_cons_self)
  refine ⟨A, R, M ++ [v], ?_, hL.restarts, ?_, ?_, ?_, fun hnil => ?_⟩
  · rw [hL.eq, append_assoc, append_assoc]
  · exact forall_mem_append.mpr ⟨hL.modifiers, forall_mem_singleton.mpr hv⟩
  · intro a ha b hb
    rw [← append_assoc] at hb
    rcases mem_append.mp hb with hb | hb
    · exact hL.below a ha b hb
    · rw [mem_singleton.mp hb]
      exact hA a ha
  · rw [← append_assoc]
    exact hL.sorted.concat hRM
  · have hlen := congrArg length hnil
    rw [length_append] at hlen
    cases hlen

theorem Ordered.insert_restart (h : Ordered L) (hv : v.isModifier = false) (hmods : modifiersOf L ≠ [])
    (hlt : ∀ b ∈ L, b.isModifier = false → b.lt v = true) (hge : ∀ b ∈ modifiersOf L, b.lt v = false)
    (hle : ∀ b ∈ modifiersOf L, v.drawId ≤ b.drawId) (hback : ∃ b ∈ modifiersOf L, b.drawId ≤ v.drawId) :
    Ordered (doBarrierInsert L v) := by
  have ⟨A, R, M, hL⟩ := h
  rw [hL.modifiersOf_eq] at hmods hge hle hback
  have hsorted := pairwise_append.mp hL.sorted
  have ⟨m, hm, hmv⟩ := hback
  have hK := fun b hb =>
    hlt b (by rw [hL.eq, ← append_assoc]; exact mem_append_left _ hb) (hL.restarts b hb)
  rw [hL.eq, ← append_assoc, doBarrierInsert_before hmods hK hge]
  refine ⟨A, R ++ [v], M, ?_, ?_, hL.modifiers, ?_, ?_, fun hnil => absurd hnil hmods⟩
  · rw [append_assoc, append_assoc]
    rfl
  · intro b hb
    rw [← append_assoc] at hb
    rcases mem_append.mp hb with hb | hb
    · exact hL.restarts b hb
    · rw [mem_singleton.mp hb]
      exact hv
  · intro a ha b hb
    rcases mem_append.mp hb with hb | hb
    · rcases mem_append.mp hb with hb | hb
      · exact hL.below a ha b (mem_append_left _ hb)
      · rw [mem_singleton.mp hb]
        exact lt_of_lt_of_le (hL.below a ha m (mem_append_right _ hm)) hmv
    · exact hL.below a ha b (mem_append_right _ hb)
  · have hR : Keyed.Sorted (fun b : Barrier => b.drawId) (R ++ [v]) := by
      have hRsorted : Keyed.Sorted (fun b : Barrier => b.drawId) R := hsorted.1
      exact hRsorted.concat fun b hb => le_trans (hsorted.2.2 b hb m hm) hmv
    refine pairwise_append.mpr ⟨hR, hsorted.2.1, fun a ha b hb => ?_⟩
    rcases mem_append.mp ha with ha | ha
    · exact hsorted.2.2 a ha b hb
    · rw [mem_singleton.mp ha]
      exact hle b hb

end Armsx3.Rsx
