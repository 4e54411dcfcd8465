import Armsx3.Util.LfQueue

/-!
# LfQueueSafety — every node has one owner

An address in use belongs to the queue, to the producer that is about to push it, or to the consumer that
has withdrawn it.  Each step writes only to nodes of its own thread or of the queue.
-/

namespace Armsx3.Util.LfQueue

open Transition LinkedList Function List Option LfQueue Consumer

inductive Owner (P C : Type)
  | queue
  | producer (p : P)
  | consumer (c : C)
deriving DecidableEq

variable {α P C : Type}

def OwnedBy (own : Nat → Option (Owner P C)) (o : Owner P C) (l : List (Nat × α)) : Prop :=
  ∀ x ∈ l, own x.1 = some o

def Has (heap : Heap α) (own : Nat → Option (Owner P C)) (content : List α) (delivered : List α) (fifo : Bool)
    (c : C) : Consumer → Prop
  | .withdrawn _ head => ∃ l, head ≠ 0 ∧ Linked heap head l ∧ OwnedBy own (.consumer c) l ∧
      delivered = [] ∧ fifo = true ∧ (l.map Prod.snd).reverse = content
  | .reversing _ head prev => ∃ l l', prev ≠ 0 ∧ Linked heap prev l ∧ Linked heap head l' ∧
      OwnedBy own (.consumer c) l ∧ OwnedBy own (.consumer c) l' ∧ (∀ x ∈ l, ∀ y ∈ l', y.1 ≠ x.1) ∧
      delivered = [] ∧ fifo = true ∧ (l.map Prod.snd).reverse ++ l'.map Prod.snd = content
  | .slice _ head => ∃ l, head ≠ 0 ∧ Linked heap head l ∧ OwnedBy own (.consumer c) l ∧
      delivered ++ l.map Prod.snd = inOrder fifo content
  | _ => True

variable {heap heap' : Heap α} {own own' : Nat → Option (Owner P C)} {o : Owner P C} {l : List (Nat × α)} {c : C}
  {ptr : Nat}

def Kept (heap heap' : Heap α) (own own' : Nat → Option (Owner P C)) (o : Owner P C) : Prop :=
  ∀ a, own a = some o → heap' a = heap a ∧ own' a = some o

theorem OwnedBy.kept (h : OwnedBy own o l) (hkept : Kept heap heap' own own' o) : OwnedBy own' o l :=
  fun x hx => (hkept x.1 (h x hx)).2

theorem OwnedBy.linked (h : OwnedBy own o l) (hkept : Kept heap heap' own own' o) (hl : Linked heap ptr l) :
    Linked heap' ptr l :=
  hl.congr fun x hx => (hkept x.1 (h x hx)).1

variable {fifo : Bool} {pc : Consumer}

theorem Has.kept {content delivered : List α}
    (h : Has heap own content delivered fifo c pc) (hkept : Kept heap heap' own own' (.consumer c)) :
    Has heap' own' content delivered fifo c pc := by
  cases pc with
  | withdrawn k head | slice k head =>
    have ⟨l, hne, hl, ho, hrest⟩ := h
    exact ⟨l, hne, ho.linked hkept hl, ho.kept hkept, hrest⟩
  | reversing =>
    have ⟨l, l', hne, hl, hl', ho, ho', hrest⟩ := h
    exact ⟨l, l', hne, ho.linked hkept hl, ho'.linked hkept hl', ho.kept hkept, ho'.kept hkept, hrest⟩
  | idle | check | exchange | waitCheck | wait | asleep => trivial

theorem has_of_batch?_eq_none {content delivered : List α} (h : pc.batch? = none) :
    Has heap own content delivered fifo c pc := by
  cases pc with
  | withdrawn => cases h
  | reversing => cases h
  | slice => cases h
  | idle | check | exchange | waitCheck | wait | asleep => trivial

def batchOf (pc : Consumer) : Nat := pc.batch?.getD 0

structure Inv (s : LfQueue α P C) (content : Nat → List α) (queue : List (Nat × α))
    (own : Nat → Option (Owner P C)) : Prop where
  used : ∀ a, own a = none ↔ s.heap a = none
  linked : Linked s.heap s.head.ptr queue
  owned : OwnedBy own .queue queue
  flag : s.head.isNonNull = 0 ↔ s.head.ptr = 0
  item : ∀ p data N oldv item, s.producer p = .cas data N oldv item →
    item ≠ 0 ∧ own item = some (.producer p) ∧ s.heap item = some ⟨oldv.ptr, data⟩
  has : ∀ c, Has s.heap own (content (batchOf (s.consumer c))) (s.delivered (batchOf (s.consumer c)))
    (s.fifo (batchOf (s.consumer c))) c (s.consumer c)
  bound : ∀ c k, (s.consumer c).batch? = some k → k < s.batches
  exclusive : ∀ c c' k, (s.consumer c).batch? = some k → (s.consumer c').batch? = some k → c = c'
  order : s.pushed = (range s.batches).flatMap content ++ (queue.map Prod.snd).reverse
  results : s.returned = ((range s.batches).flatMap fun k => marks (content k)) ++ marks (queue.map Prod.snd).reverse
  nonempty : ∀ k, k < s.batches → content k ≠ []
  read : ∀ k, k < s.batches → (∀ c, (s.consumer c).batch? ≠ some k) → s.delivered k = inOrder (s.fifo k) (content k)
  crashed : s.crashed = false
  notified : ∀ c, (∀ c', c' = c) → s.consumer c = .asleep → s.head.ptr ≠ 0 →
    (∃ p, s.producer p = .notify) ∨ s.silent = true

theorem inv_init : Inv (init : LfQueue α P C) (fun _ => []) [] (fun _ => none) where
  used _ := ⟨fun _ => rfl, fun _ => rfl⟩
  linked := rfl
  owned x hx := by cases hx
  flag := ⟨fun _ => rfl, fun _ => rfl⟩
  item p data N oldv item h := by cases h
  has c := trivial
  bound c k h := by cases h
  exclusive c c' k h := by cases h
  order := rfl
  results := rfl
  nonempty k h := by cases h
  read k h := by cases h
  crashed := rfl
  notified c _ h := by cases h

variable [DecidableEq P] [DecidableEq C] {s s' : LfQueue α P C} {content : Nat → List α} {queue : List (Nat × α)}
  {p : P}

theorem update_cases {ι β : Type} [DecidableEq ι] (f : ι → β) (i j : ι) (x : β) :
    (j = i ∧ update f i x j = x) ∨ (j ≠ i ∧ update f i x j = f j) := by
  by_cases h : j = i
  · exact .inl ⟨h, by rw [h, update_self]⟩
  · exact .inr ⟨h, update_of_ne h _ _⟩

omit [DecidableEq C] in
theorem Inv.notified_of_ne (h : Inv s content queue own) {pc : Producer α} (hp : s.producer p ≠ .notify) (c : C)
    (honly : ∀ c', c' = c) (hasleep : s.consumer c = .asleep) (hptr : s.head.ptr ≠ 0) :
    (∃ q, update s.producer p pc q = .notify) ∨ s.silent = true := by
  rcases h.notified c honly hasleep hptr with ⟨q, hq⟩ | hsilent
  · have hqp : q ≠ p := fun he => hp (he ▸ hq)
    exact .inl ⟨q, (update_of_ne hqp _ _).trans hq⟩
  · exact .inr hsilent

omit [DecidableEq C] in
theorem Inv.setProducer (h : Inv s content queue own) {pc : Producer α}
    (hcas : ∀ data N oldv item, pc ≠ .cas data N oldv item)
    (hnotify : s.producer p ≠ .notify ∨ ∀ c, (∀ c', c' = c) → s.consumer c ≠ .asleep) :
    Inv (s.setProducer p pc) content queue own where
  __ := h
  item q data N oldv item hq := by
    rcases update_cases s.producer p q pc with ⟨_, he⟩ | ⟨_, he⟩
    · exact absurd (he.symm.trans hq) (hcas data N oldv item)
    · exact h.item q data N oldv item (he.symm.trans hq)
  notified c honly hasleep hne := by
    rcases hnotify with hp | hnone
    · exact h.notified_of_ne hp c honly hasleep hne
    · exact absurd hasleep (hnone c honly)

omit [DecidableEq P] in
theorem Inv.setConsumer (h : Inv s content queue own) (hold : (s.consumer c).batch? = none)
    (hnew : pc.batch? = none) (hasleep : pc = .asleep → s.head.ptr = 0) :
    Inv (s.setConsumer c pc) content queue own := by
  -- who has which batch does not change
  have hbatch : ∀ d, ((s.setConsumer c pc).consumer d).batch? = (s.consumer d).batch? := by
    intro d
    rcases update_cases s.consumer c d pc with ⟨hd, he⟩ | ⟨_, he⟩
    · exact (congrArg batch? he).trans (hnew.trans (hd ▸ hold.symm))
    · exact congrArg batch? he
  refine ⟨h.used, h.linked, h.owned, h.flag, h.item, ?_, ?_, ?_, h.order, h.results, h.nonempty, ?_, h.crashed, ?_⟩
  · intro d
    rcases update_cases s.consumer c d pc with ⟨_, he⟩ | ⟨_, he⟩
    · exact has_of_batch?_eq_none ((congrArg batch? he).trans hnew)
    · have hd : (s.setConsumer c pc).consumer d = s.consumer d := he
      rw [hd]
      exact h.has d
  · intro d k hd
    rw [hbatch] at hd
    exact h.bound d k hd
  · intro d d' k hd hd'
    rw [hbatch] at hd hd'
    exact h.exclusive d d' k hd hd'
  · intro k hk hnone
    exact h.read k hk fun d => by rw [← hbatch d]; exact hnone d
  · intro d honly hd hne
    rcases update_cases s.consumer c d pc with ⟨_, he⟩ | ⟨_, he⟩
    · exact absurd (hasleep (he.symm.trans hd)) hne
    · exact h.notified d honly (he.symm.trans hd) hne

variable {a : Nat}

omit [DecidableEq P] [DecidableEq C] in
theorem used_setLink (h : ∀ b, own b = none ↔ heap b = none) (b : Nat) :
    own b = none ↔ setLink heap a ptr b = none := by
  rw [h b]
  unfold setLink
  by_cases hb : b = a
  · rw [hb, update_self, map_eq_none_iff]
  · rw [update_of_ne hb]

omit [DecidableEq P] [DecidableEq C] in
theorem kept_setLink {o' : Owner P C} (ha : own a = some o') (ho : o ≠ o') :
    Kept heap (setLink heap a ptr) own own o := by
  intro b hb
  have hne : b ≠ a := by
    rintro rfl
    exact ho (some.inj (hb.symm.trans ha))
  exact ⟨update_of_ne hne _ _, hb⟩

/-! ## The producers -/

omit [DecidableEq P] [DecidableEq C] in
theorem used_update {node : Option (Node α)} {w : Option (Owner P C)} (h : ∀ b, own b = none ↔ heap b = none)
    (hw : w = none ↔ node = none) (b : Nat) : update own a w b = none ↔ update heap a node b = none := by
  by_cases hb : b = a
  · rw [hb, update_self, update_self, hw]
  · rw [update_of_ne hb, update_of_ne hb, h b]

omit [DecidableEq P] [DecidableEq C] in
theorem kept_update {node : Option (Node α)} {w : Option (Owner P C)} (ha : own a ≠ some o) :
    Kept heap (update heap a node) own (update own a w) o := by
  intro b hb
  have hne : b ≠ a := fun he => ha (he ▸ hb)
  exact ⟨update_of_ne hne _ _, (update_of_ne hne _ _).trans hb⟩

omit [DecidableEq C] in
theorem Inv.store (h : Inv s content queue own) {data : α} {N : Bool} {oldv : FatPtr} {item : Nat}
    (hp : s.producer p ≠ .notify) (hne : item ≠ 0) (hown : own item = none ∨ own item = some (.producer p)) :
    Inv { s.setProducer p (.cas data N oldv item) with
        heap := update s.heap item (some ⟨oldv.ptr, data⟩) } content queue
      (update own item (some (.producer p))) := by
  have hkept : ∀ o, o ≠ .producer p → Kept s.heap (update s.heap item (some ⟨oldv.ptr, data⟩)) own
      (update own item (some (.producer p))) o := by
    intro o ho
    apply kept_update
    rcases hown with hnone | hmine
    · rw [hnone]
      exact nofun
    · rw [hmine]
      exact fun hc => ho (some.inj hc).symm
  have hqueue := hkept .queue nofun
  refine { h with
    used := used_update h.used ⟨nofun, nofun⟩
    linked := h.owned.linked hqueue h.linked
    owned := h.owned.kept hqueue
    item := ?_
    has := fun c => (h.has c).kept (hkept _ nofun)
    notified := h.notified_of_ne hp }
  · intro q data' N' oldv' item' hq
    rcases update_cases s.producer p q (.cas data N oldv item) with ⟨hqp, he⟩ | ⟨hqp, he⟩
    · cases he.symm.trans hq
      exact ⟨hne, by rw [update_self, hqp], update_self _ _ _⟩
    · have ⟨hne', hown', hheap⟩ := h.item q data' N' oldv' item' (he.symm.trans hq)
      have hk := hkept (.producer q) (fun hc => hqp (Owner.producer.inj hc)) item' hown'
      exact ⟨hne', hk.2, hk.1.trans hheap⟩

omit [DecidableEq C] in
theorem Inv.allocate (h : Inv s content queue own) (hs : s.allocate p ptr = some s') :
    ∃ own', Inv s' content queue own' := by
  unfold LfQueue.allocate at hs
  split at hs
  next data N oldv hp =>
    split at hs
    next hfree =>
      have hnone := (h.used ptr).mpr (isNone_iff_eq_none.mp hfree.2)
      cases hs
      exact ⟨_, h.store (by rw [hp]; exact nofun) hfree.1 (.inl hnone)⟩
    · cases hs
  · cases hs

theorem marks_concat {l : List α} (v : α) : marks (l ++ [v]) = marks l ++ [decide (l = [])] := by
  cases l with
  | nil => rfl
  | cons =>
    rw [cons_append, marks, marks, map_append, map_singleton, ← cons_append]
    rfl

omit [DecidableEq C] in
theorem Inv.push (h : Inv s content queue own) {data : α} {N : Bool} {item : Nat}
    (hp : s.producer p = .cas data N s.head item) :
    Inv { s.setProducer p (if s.head.ptr = 0 ∧ N then .notify else .idle) with
        head := ⟨item, 1⟩
        pushed := s.pushed ++ [data]
        returned := s.returned ++ [decide (s.head.ptr = 0)]
        silent := if s.head.ptr = 0 then !N else s.silent } content ((item, data) :: queue)
      (update own item (some .queue)) := by
  have ⟨hne, hown, hnode⟩ := h.item p data N s.head item hp
  have hkept : ∀ o, o ≠ .producer p → Kept s.heap s.heap own (update own item (some .queue)) o := by
    intro o ho a ha
    have hne : a ≠ item := by
      rintro rfl
      exact ho (some.inj (ha.symm.trans hown))
    exact ⟨rfl, (update_of_ne hne _ _).trans ha⟩
  have hempty : decide (s.head.ptr = 0) = decide ((queue.map Prod.snd).reverse = []) := by
    rw [decide_eq_decide, reverse_eq_nil_iff, map_eq_nil_iff]
    constructor
    · intro h0
      exact (h0 ▸ h.linked).eq_nil
    · intro h0
      exact Classical.byContradiction fun hptr => h.linked.ne_nil hptr h0
  refine { h with
    used := ?_
    linked := h.linked.cons hne hnode
    owned := ?_
    flag := ⟨nofun, fun hc => absurd hc hne⟩
    item := ?_
    has := fun c => (h.has c).kept (hkept _ nofun)
    order := ?_
    results := ?_
    notified := ?_ }
  · intro a
    show update own item _ a = none ↔ s.heap a = none
    rw [used_update h.used (show _ ↔ s.heap item = none by rw [hnode]; exact ⟨nofun, nofun⟩), update_eq_self]
  · intro x hx
    rcases mem_cons.mp hx with rfl | hx
    · exact update_self _ _ _
    · exact h.owned.kept (hkept .queue nofun) x hx
  · intro q data' N' oldv' item' hq
    rcases update_cases s.producer p q (if s.head.ptr = 0 ∧ N then .notify else .idle) with ⟨_, he⟩ | ⟨hqp, he⟩
    · have hc := he.symm.trans hq
      split at hc <;> cases hc
    · have ⟨hne', hown', hheap⟩ := h.item q data' N' oldv' item' (he.symm.trans hq)
      exact ⟨hne', (hkept _ (fun hc => hqp (Owner.producer.inj hc)) item' hown').2, hheap⟩
  · show s.pushed ++ [data] = (range s.batches).flatMap content ++ (((item, data) :: queue).map Prod.snd).reverse
    rw [h.order, map_cons, reverse_cons, append_assoc]
  · show s.returned ++ [decide (s.head.ptr = 0)] = ((range s.batches).flatMap fun k => marks (content k)) ++
      marks (((item, data) :: queue).map Prod.snd).reverse
    rw [h.results, map_cons, reverse_cons, marks_concat, append_assoc, hempty]
  · intro c honly hasleep _
    show (∃ q, update s.producer p _ q = .notify) ∨ (if s.head.ptr = 0 then !N else s.silent) = true
    by_cases h0 : s.head.ptr = 0
    · cases N with
      -- the first element: its producer notifies, or was told not to
      | true => exact .inl ⟨p, by rw [update_self, if_pos ⟨h0, rfl⟩]⟩
      | false => exact .inr (by rw [if_pos h0]; rfl)
    · rw [if_neg h0]
      exact h.notified_of_ne (by rw [hp]; exact nofun) c honly hasleep h0

omit [DecidableEq C] in
theorem Inv.produce (h : Inv s content queue own) (hs : s.produce p = some s') :
    ∃ queue' own', Inv s' content queue' own' := by
  unfold LfQueue.produce at hs
  split at hs
  next data N hp =>
    cases hs
    exact ⟨queue, own, h.setProducer (by intros; exact nofun)
      (.inl (by rw [hp]; exact nofun))⟩
  next data N oldv item hp =>
    by_cases hhead : s.head = oldv
    · rw [if_pos hhead] at hs
      rw [← some.inj hs, ← hhead]
      exact ⟨_, _, h.push (hhead ▸ hp)⟩
    rw [if_neg hhead] at hs
    have ⟨hne, hown, hnode⟩ := h.item p data N oldv item hp
    have hset : setLink s.heap item s.head.ptr = update s.heap item (some ⟨s.head.ptr, data⟩) := by
      unfold setLink
      rw [hnode]
      rfl
    have hsafe : (s.crashed || (s.heap item).isNone) = s.crashed := by
      rw [hnode, isNone_some, Bool.or_false]
    rw [← some.inj hs, hset, hsafe]
    exact ⟨queue, _, h.store (by rw [hp]; exact nofun) hne (.inr hown)⟩
  · cases hs

/-! ## The consumers -/

omit [DecidableEq P] [DecidableEq C] in
theorem batchOf_eq {k : Nat} (h : pc.batch? = some k) : batchOf pc = k := by
  rw [batchOf, h, getD_some]

omit [DecidableEq P] [DecidableEq C] in
theorem Inv.has_at (h : Inv s content queue own) {k : Nat} (hc : s.consumer c = pc) (hk : pc.batch? = some k) :
    (s.consumer c).batch? = some k ∧ Has s.heap own (content k) (s.delivered k) (s.fifo k) c pc := by
  rw [← hc] at hk ⊢
  exact ⟨hk, batchOf_eq hk ▸ h.has c⟩

theorem flatMap_range_update {β γ : Type} (content : Nat → List β) (f : List β → List γ) (n : Nat) (l : List β) :
    ((range (n + 1)).flatMap fun k => f (update content n l k)) =
      ((range n).flatMap fun k => f (content k)) ++ f l := by
  have hsame : ∀ k ∈ range n, f (update content n l k) = f (content k) := by
    intro k hk
    rw [update_of_ne (Nat.ne_of_lt (mem_range.mp hk))]
  rw [range_succ, flatMap_append, flatMap_congr hsame, flatMap_singleton, update_self]

theorem Inv.withdraw (h : Inv s content queue own) (hc : s.consumer c = .exchange fifo) (hptr : s.head.ptr ≠ 0) :
    ∃ content' own', Inv { s.setConsumer c
          (if fifo then .withdrawn s.batches s.head.ptr else .slice s.batches s.head.ptr) with
        head := {}
        batches := s.batches + 1
        fifo := update s.fifo s.batches fifo
        delivered := update s.delivered s.batches [] } content' [] own' := by
  refine ⟨update content s.batches (queue.map Prod.snd).reverse,
    fun a => if own a = some .queue then some (.consumer c) else own a, ?_⟩
  have hkept : ∀ o, o ≠ .queue →
      Kept s.heap s.heap own (fun a => if own a = some .queue then some (.consumer c) else own a) o := by
    intro o ho a ha
    have hne := fun hq => ho (some.inj (ha.symm.trans hq))
    exact ⟨rfl, (if_neg hne).trans ha⟩
  have hmine : OwnedBy (fun a => if own a = some .queue then some (.consumer c) else own a) (.consumer c) queue :=
    fun x hx => if_pos (h.owned x hx)
  have hold : (s.consumer c).batch? = none := by
    rw [hc]
    rfl
  -- the batch has a number that no consumer has yet
  have hnew : ∀ d k, d ≠ c → (s.consumer d).batch? = some k → k ≠ s.batches :=
    fun d k _ hd => Nat.ne_of_lt (h.bound d k hd)
  generalize hpc : (if fifo then withdrawn s.batches s.head.ptr else .slice s.batches s.head.ptr) = pc
  have hbatch : pc.batch? = some s.batches := by
    rw [← hpc]
    cases fifo <;> rfl
  have hcases : ∀ d k, (update s.consumer c pc d).batch? = some k →
      (d = c ∧ k = s.batches) ∨ (d ≠ c ∧ (s.consumer d).batch? = some k) := by
    intro d k hd
    rcases update_cases s.consumer c d pc with ⟨hdc, he⟩ | ⟨hdc, he⟩
    · rw [he, hbatch] at hd
      exact .inl ⟨hdc, (some.inj hd).symm⟩
    · exact .inr ⟨hdc, he ▸ hd⟩
  constructor
  · intro a
    show (if own a = some .queue then some (.consumer c) else own a) = none ↔ s.heap a = none
    rw [← h.used a]
    by_cases ha : own a = some .queue
    · rw [if_pos ha, ha]
      exact ⟨fun hc => (nomatch hc), nofun⟩
    · rw [if_neg ha]
  · rfl
  · intro x hx
    cases hx
  · exact ⟨fun _ => rfl, fun _ => rfl⟩
  · intro q data N oldv item hq
    have ⟨hne, hown, hheap⟩ := h.item q data N oldv item hq
    exact ⟨hne, (hkept (.producer q) nofun item hown).2, hheap⟩
  · intro d
    show Has s.heap _ (update content s.batches _ (batchOf (update s.consumer c pc d)))
      (update s.delivered s.batches [] (batchOf (update s.consumer c pc d)))
      (update s.fifo s.batches fifo (batchOf (update s.consumer c pc d))) d
      (update s.consumer c pc d)
    rcases update_cases s.consumer c d pc with ⟨hdc, he⟩ | ⟨hdc, he⟩
    · rw [he, batchOf_eq hbatch, update_self, update_self, update_self, ← hpc, hdc]
      cases fifo with
      | true => exact ⟨queue, hptr, h.linked, hmine, rfl, rfl, rfl⟩
      | false => exact ⟨queue, hptr, h.linked, hmine, (reverse_reverse _).symm⟩
    rw [he]
    cases hd : (s.consumer d).batch? with
    | none => exact has_of_batch?_eq_none hd
    | some k =>
      have hk := hnew d k hdc hd
      have hhas := h.has d
      rw [batchOf_eq hd] at hhas ⊢
      rw [update_of_ne hk, update_of_ne hk, update_of_ne hk]
      exact hhas.kept (hkept _ nofun)
  · intro d k hd
    show k < s.batches + 1
    rcases hcases d k hd with ⟨_, hk⟩ | ⟨_, hd⟩
    · omega
    · have := h.bound d k hd
      omega
  · intro d d' k hd hd'
    rcases hcases d k hd with ⟨hdc, hk⟩ | ⟨hdc, hd⟩
    · rcases hcases d' k hd' with ⟨hdc', _⟩ | ⟨hdc', hd'⟩
      · rw [hdc, hdc']
      · exact absurd hk (hnew d' k hdc' hd')
    · rcases hcases d' k hd' with ⟨_, hk⟩ | ⟨_, hd'⟩
      · exact absurd hk (hnew d k hdc hd)
      · exact h.exclusive d d' k hd hd'
  · show s.pushed = ((range (s.batches + 1)).flatMap fun k => id (update content s.batches _ k)) ++ []
    rw [flatMap_range_update content id, append_nil, h.order]
    rfl
  · show s.returned = ((range (s.batches + 1)).flatMap fun k => marks (update content s.batches _ k)) ++ []
    rw [flatMap_range_update content marks, append_nil, h.results]
  · intro k hk
    by_cases hkb : k = s.batches
    · rw [hkb, update_self, ne_eq, reverse_eq_nil_iff, map_eq_nil_iff]
      exact h.linked.ne_nil hptr
    · rw [update_of_ne hkb]
      exact h.nonempty k (by have : k < s.batches + 1 := hk; omega)
  · intro k hk hnone
    have hkb : k ≠ s.batches := by
      rintro rfl
      apply hnone c
      show (update s.consumer c pc c).batch? = _
      rw [update_self, hbatch]
    show update s.delivered s.batches [] k = inOrder (update s.fifo s.batches fifo k) (update content s.batches _ k)
    rw [update_of_ne hkb, update_of_ne hkb, update_of_ne hkb]
    apply h.read k (by have : k < s.batches + 1 := hk; omega)
    intro d hd
    rcases update_cases s.consumer c d pc with ⟨hdc, _⟩ | ⟨_, he⟩
    · rw [hdc, hold] at hd
      cases hd
    · exact hnone d ((congrArg batch? he).trans hd)
  · exact h.crashed
  · exact fun d _ _ hne => absurd rfl hne

omit [DecidableEq P] in
theorem Inv.work (h : Inv s content queue own) {k : Nat} {delivered' : Nat → List α}
    (hk : (s.consumer c).batch? = some k)
    (hused : ∀ a, own' a = none ↔ heap' a = none)
    (hkept : ∀ o, o ≠ .consumer c → Kept s.heap heap' own own' o)
    (hdel : ∀ j, j ≠ k → delivered' j = s.delivered j)
    (hpc : pc.batch? = some k ∨ pc = .idle ∧ delivered' k = inOrder (s.fifo k) (content k))
    (hhas : Has heap' own' (content k) (delivered' k) (s.fifo k) c pc) :
    Inv { s.setConsumer c pc with heap := heap', delivered := delivered' } content queue own' := by
  have hqueue := hkept .queue nofun
  -- the batch stays with the consumer, or nobody has it any more
  have hbatch : ∀ d j, (update s.consumer c pc d).batch? = some j → (s.consumer d).batch? = some j := by
    intro d j hd
    rcases update_cases s.consumer c d pc with ⟨hdc, he⟩ | ⟨_, he⟩
    · rw [he] at hd
      rcases hpc with hpc | ⟨hidle, _⟩
      · rw [hdc, hk, ← hpc, hd]
      · rw [hidle] at hd
        cases hd
    · exact he ▸ hd
  refine ⟨hused, h.owned.linked hqueue h.linked, h.owned.kept hqueue, h.flag, ?_, ?_, ?_, ?_, h.order, h.results,
    h.nonempty, ?_, h.crashed, ?_⟩
  · intro q data N oldv item hq
    have ⟨hne, hown, hheap⟩ := h.item q data N oldv item hq
    have hkeep := hkept (.producer q) nofun item hown
    exact ⟨hne, hkeep.2, hkeep.1.trans hheap⟩
  · intro d
    show Has heap' own' (content (batchOf (update s.consumer c pc d)))
      (delivered' (batchOf (update s.consumer c pc d))) (s.fifo (batchOf (update s.consumer c pc d))) d
      (update s.consumer c pc d)
    rcases update_cases s.consumer c d pc with ⟨hdc, he⟩ | ⟨hdc, he⟩
    · rw [he, hdc]
      rcases hpc with hpc | ⟨hidle, _⟩
      · rw [batchOf_eq hpc]
        exact hhas
      · exact has_of_batch?_eq_none (hidle ▸ rfl)
    rw [he]
    cases hd : (s.consumer d).batch? with
    | none => exact has_of_batch?_eq_none hd
    | some j =>
      have hjk : j ≠ k := by
        rintro rfl
        exact hdc (h.exclusive d c j hd hk)
      have hold := h.has d
      rw [batchOf_eq hd] at hold ⊢
      rw [hdel j hjk]
      exact hold.kept (hkept _ (fun hc => hdc (Owner.consumer.inj hc)))
  · exact fun d j hd => h.bound d j (hbatch d j hd)
  · exact fun d d' j hd hd' => h.exclusive d d' j (hbatch d j hd) (hbatch d' j hd')
  · intro j hj hnone
    show delivered' j = inOrder (s.fifo j) (content j)
    by_cases hjk : j = k
    · rcases hpc with hpc | ⟨_, hdone⟩
      · refine absurd ?_ (hnone c)
        show (update s.consumer c pc c).batch? = some j
        rw [update_self, hpc, hjk]
      · rw [hjk]
        exact hdone
    · rw [hdel j hjk]
      apply h.read j hj
      intro d hd
      rcases update_cases s.consumer c d pc with ⟨hdc, _⟩ | ⟨_, he⟩
      · rw [hdc, hk] at hd
        exact hjk (some.inj hd).symm
      · exact hnone d ((congrArg batch? he).trans hd)
  · intro d honly hd hptr
    rcases update_cases s.consumer c d pc with ⟨_, he⟩ | ⟨_, he⟩
    · have hpc' := he.symm.trans hd
      rcases hpc with hpc | ⟨hidle, _⟩
      · rw [hpc'] at hpc
        cases hpc
      · rw [hpc'] at hidle
        cases hidle
    · exact h.notified d honly (he.symm.trans hd) hptr

omit [DecidableEq P] in
theorem Inv.consumeWithdrawn (h : Inv s content queue own) {k head : Nat} (hc : s.consumer c = .withdrawn k head) :
    Inv (s.follow head fun node =>
      if node.link = 0 then s.setConsumer c (.slice k head)
      else { s.setConsumer c (.reversing k head node.link) with heap := setLink s.heap head 0 }) content queue own := by
  have ⟨hk, hhas⟩ := h.has_at hc rfl
  have ⟨l, hne, hl, hown, hdel, hfifo, hcontent⟩ := hhas
  have ⟨link, v, t, hlt, hnode, hrest⟩ := hl.node hne
  unfold follow
  rw [hnode]
  show Inv (if link = 0 then _ else _) content queue own
  by_cases hlink : link = 0
  · rw [if_pos hlink]
    -- one element: the list is its own reverse
    have ht := (hlink ▸ hrest).eq_nil
    have hsame : l.map Prod.snd = content k := by
      rw [← hcontent, hlt, ht]
      rfl
    refine h.work hk h.used (fun o _ a ha => ⟨rfl, ha⟩) (fun _ _ => rfl) (.inl rfl) ?_
    exact ⟨l, hne, hl, hown, by rw [hdel, hfifo, nil_append]; exact hsame⟩
  rw [if_neg hlink]
  rw [hlt] at hl hown
  have hfirst := Linked.setLink (show Linked s.heap 0 [] from rfl) nofun hne hnode
  refine h.work hk (used_setLink h.used) (fun o ho => ?_) (fun _ _ => rfl) (.inl rfl) ?_
  · exact kept_setLink (hown _ mem_cons_self) ho
  refine ⟨t, [(head, v)], hlink, hrest.frame hl.head_ne _, hfirst, fun x hx => hown x (mem_cons_of_mem _ hx),
    fun x hx => hown x (mem_cons.mpr (.inl (mem_singleton.mp hx))), ?_, hdel, hfifo, ?_⟩
  · intro x hx y hy
    rw [mem_singleton.mp hy]
    exact (hl.head_ne x hx).symm
  · have hrev : (((head, v) :: t).map Prod.snd).reverse = (t.map Prod.snd).reverse ++ [v] := reverse_cons
    rw [← hcontent, hlt, hrev]
    rfl

omit [DecidableEq P] in
theorem Inv.consumeReversing (h : Inv s content queue own) {k head prev : Nat}
    (hc : s.consumer c = .reversing k head prev) :
    Inv (s.follow prev fun node =>
      { s.setConsumer c (if node.link = 0 then .slice k prev else .reversing k prev node.link) with
        heap := setLink s.heap prev head }) content queue own := by
  have ⟨hk, hhas⟩ := h.has_at hc rfl
  have ⟨l, l', hne, hl, hl', hown, hown', hapart, hdel, hfifo, hcontent⟩ := hhas
  have ⟨link, v, t, hlt, hnode, hrest⟩ := hl.node hne
  rw [hlt] at hl hown hapart
  have hfirst := hl'.setLink (hapart _ mem_cons_self) hne hnode
  have hfirstOwn : OwnedBy own (.consumer c) ((prev, v) :: l') := by
    intro x hx
    rcases mem_cons.mp hx with hx | hx
    · rw [hx]
      exact hown (prev, v) mem_cons_self
    · exact hown' x hx
  have hturned : (t.map Prod.snd).reverse ++ ((prev, v) :: l').map Prod.snd = content k := by
    rw [← hcontent, hlt, map_cons, map_cons, reverse_cons, append_assoc]
    rfl
  unfold follow
  rw [hnode]
  refine h.work hk (used_setLink h.used) (fun o ho => ?_) (fun _ _ => rfl) (.inl ?_) ?_
  · exact kept_setLink (hown _ mem_cons_self) ho
  · split <;> rfl
  show Has _ own (content k) (s.delivered k) (s.fifo k) c (if link = 0 then .slice k prev else .reversing k prev link)
  by_cases hlink : link = 0
  · rw [if_pos hlink]
    have ht := (hlink ▸ hrest).eq_nil
    rw [ht] at hturned
    refine ⟨(prev, v) :: l', hne, hfirst, hfirstOwn, ?_⟩
    rw [hdel, hfifo, nil_append]
    exact hturned
  · rw [if_neg hlink]
    refine ⟨t, (prev, v) :: l', hlink, hrest.frame hl.head_ne _, hfirst, fun x hx => hown x (mem_cons_of_mem _ hx),
      hfirstOwn, ?_, hdel, hfifo, hturned⟩
    intro x hx y hy
    rcases mem_cons.mp hy with hy | hy
    · rw [hy]
      exact (hl.head_ne x hx).symm
    · exact hapart x (mem_cons_of_mem _ hx) y hy

omit [DecidableEq P] in
theorem Inv.popFront (h : Inv s content queue own) (hs : s.popFront c = some s') :
    ∃ own', Inv s' content queue own' := by
  unfold LfQueue.popFront at hs
  split at hs
  next k head hc =>
    have ⟨hk, hhas⟩ := h.has_at hc rfl
    have ⟨l, hne, hl, hown, hread⟩ := hhas
    have ⟨link, v, t, hlt, hnode, hrest⟩ := hl.node hne
    rw [hlt] at hl hown hread
    have hread' : (s.delivered k ++ [v]) ++ t.map Prod.snd = inOrder (s.fifo k) (content k) := by
      rw [← hread, append_assoc]
      rfl
    cases hs
    unfold LfQueue.follow
    rw [hnode]
    refine ⟨update own head none, h.work hk (fun a => ?_) (fun o ho => ?_) (fun j hj => update_of_ne hj _ _) ?_ ?_⟩
    · exact used_update h.used ⟨fun _ => rfl, fun _ => rfl⟩ a
    · apply kept_update
      rw [hown _ mem_cons_self]
      exact fun hcon => ho (some.inj hcon).symm
    · by_cases hlink : link = 0
      · have ht := (hlink ▸ hrest).eq_nil
        rw [if_pos hlink, update_self]
        rw [ht, map_nil, append_nil] at hread'
        exact .inr ⟨rfl, hread'⟩
      · rw [if_neg hlink]
        exact .inl rfl
    · by_cases hlink : link = 0
      · rw [if_pos hlink]
        trivial
      rw [if_neg hlink, update_self]
      refine ⟨t, hlink, hrest.frame hl.head_ne _, fun x hx => ?_, hread'⟩
      rw [update_of_ne (hl.head_ne x hx)]
      exact hown x (mem_cons_of_mem _ hx)
  · cases hs

theorem Inv.consume (h : Inv s content queue own) (hs : s.consume c = some s') :
    ∃ content' queue' own', Inv s' content' queue' own' := by
  unfold LfQueue.consume at hs
  split at hs
  next hc =>
    cases hs
    refine ⟨content, queue, own, h.setConsumer (hc ▸ rfl) ?_ fun hp => ?_⟩
    · split <;> rfl
    · split at hp <;> cases hp
  next fifo hc =>
    by_cases hptr : s.head.ptr = 0
    · -- there was nothing, and the head stays as it is
      have hhead : ({} : FatPtr) = s.head := by
        rw [show s.head = ⟨s.head.ptr, s.head.isNonNull⟩ from rfl, hptr, h.flag.mpr hptr]
      rw [if_pos hptr, hhead] at hs
      cases hs
      exact ⟨content, queue, own, h.setConsumer (hc ▸ rfl) rfl nofun⟩
    · rw [if_neg hptr] at hs
      cases hs
      have ⟨content', own', h'⟩ := h.withdraw hc hptr
      exact ⟨content', [], own', h'⟩
  next k head hc =>
    cases hs
    exact ⟨content, queue, own, h.consumeWithdrawn hc⟩
  next k head prev hc =>
    cases hs
    exact ⟨content, queue, own, h.consumeReversing hc⟩
  next hc =>
    cases hs
    refine ⟨content, queue, own, h.setConsumer (hc ▸ rfl) ?_ fun hp => ?_⟩
    · split <;> rfl
    · split at hp <;> cases hp
  next hc =>
    cases hs
    refine ⟨content, queue, own, h.setConsumer (hc ▸ rfl) ?_ fun hp => ?_⟩
    · split <;> rfl
    · split at hp
      next hflag =>
        exact h.flag.mp hflag
      · cases hp
  · cases hs

/-! ## Runs -/

omit [DecidableEq P] in
theorem Inv.enter (h : Inv s content queue own) (hs : s.enter c pc = some s')
    (hpc : pc.batch? = none) (hne : pc ≠ .asleep) : Inv s' content queue own := by
  have ⟨hc, hs⟩ := ite_none_right_eq_some.mp hs
  cases hs
  exact h.setConsumer (hc ▸ rfl) hpc (fun hp => absurd hp hne)

omit [DecidableEq P] in
theorem Inv.wake (h : Inv s content queue own) (hs : s.wake c = some s') : Inv s' content queue own := by
  have ⟨hc, hs⟩ := ite_none_right_eq_some.mp hs
  cases hs
  exact h.setConsumer (hc ▸ rfl) rfl nofun

theorem Inv.notifyOne (h : Inv s content queue own) (hs : (s.setProducer p .idle).wake c = some s') :
    Inv s' content queue own := by
  have ⟨hc, hs⟩ := ite_none_right_eq_some.mp hs
  cases hs
  have hbatch : (s.consumer c).batch? = none := by
    rw [show s.consumer c = .asleep from hc]
    rfl
  have hwoken : Inv (s.setConsumer c .idle) content queue own := h.setConsumer hbatch rfl nofun
  apply hwoken.setProducer (by intros; exact nofun)
  refine .inr fun d honly hd => ?_
  rw [← honly c] at hd
  have hidle : (s.setConsumer c .idle).consumer c = .idle := update_self _ _ _
  rw [hidle] at hd
  cases hd

theorem inv_step [Fintype C] {e : Event α P C} (h : Inv s content queue own) (hs : s.step e = some s') :
    ∃ content' queue' own', Inv s' content' queue' own' := by
  cases e with
  | push =>
    simp only [step] at hs
    split at hs
    next hp =>
      cases hs
      exact ⟨content, queue, own, h.setProducer (by rintro _ _ _ _ ⟨⟩)
        (.inl (by rw [hp]; rintro ⟨⟩))⟩
    · cases hs
  | produce =>
    obtain ⟨queue', own', h'⟩ := h.produce hs
    exact ⟨content, queue', own', h'⟩
  | new =>
    obtain ⟨own', h'⟩ := h.allocate hs
    exact ⟨content, queue, own', h'⟩
  | notify p woken =>
    simp only [step] at hs
    split at hs
    · cases woken with
      | none =>
        by_cases hnone : s.NoneAsleep
        · simp only [if_pos hnone] at hs
          cases hs
          exact ⟨content, queue, own, h.setProducer (by rintro _ _ _ _ ⟨⟩)
            (.inr fun c _ => hnone c)⟩
        · simp only [if_neg hnone] at hs
          cases hs
      | some => exact ⟨content, queue, own, h.notifyOne hs⟩
    · cases hs
  | popAll c | popAllReversed c | wait c => exact ⟨content, queue, own, h.enter hs rfl (by rintro ⟨⟩)⟩
  | consume => exact h.consume hs
  | popFront =>
    obtain ⟨own', h'⟩ := h.popFront hs
    exact ⟨content, queue, own', h'⟩
  | wake => exact ⟨content, queue, own, h.wake hs⟩

omit [DecidableEq P] [DecidableEq C] in
theorem Inv.safe (h : Inv s content queue own) : s.Safe content queue where
  __ := h
  reading c k head hc := by
    have hhas := h.has c
    rw [hc] at hhas
    have ⟨l, _, hl, _, hread⟩ := hhas
    exact ⟨l, hl, hread⟩
  reversing c k head prev hc := by
    have hhas := h.has c
    rw [hc] at hhas
    have ⟨l, l', _, hl, hl', _, _, _, hrest⟩ := hhas
    exact ⟨l, l', hl, hl', hrest⟩
  withdrawn c k head hc := by
    have hhas := h.has c
    rw [hc] at hhas
    have ⟨l, _, hl, _, hrest⟩ := hhas
    exact ⟨l, hl, hrest⟩
  notified c honly hasleep hne := by
    apply h.notified c honly hasleep
    intro h0
    exact hne (h0 ▸ h.linked).eq_nil

theorem exists_inv [Fintype C] (hs : (lfQueueSystem α P C).Reachable s) :
    ∃ content queue own, Inv s content queue own := by
  apply hs.invariant
  · intro s hinit
    rw [hinit]
    exact ⟨_, _, _, inv_init⟩
  · rintro s e s' ⟨content, queue, own, h⟩ hstep
    exact inv_step h hstep

end Armsx3.Util.LfQueue

namespace Armsx3.Util

open LfQueue

/-- The batches, in the order of the exchanges, and then what is still in the queue, are the elements in the order
of the successful compare-and-swaps, whatever addresses are used again. -/
theorem lfQueue_safe {α P C : Type} [DecidableEq P] [DecidableEq C] [Fintype C] {s : LfQueue α P C}
    (hs : (lfQueueSystem α P C).Reachable s) : ∃ content queue, s.Safe content queue := by
  have ⟨content, queue, _, h⟩ := exists_inv hs
  exact ⟨content, queue, h.safe⟩

/-- The second producer has read the head when the first element is withdrawn, freed and followed by a new
one at the same address, and its compare-and-swap succeeds. -/
theorem lfQueue_safe_reused : ∃ s : LfQueue Nat (Fin 2) (Fin 1), (s.pushed = [5, 7, 6] ∧
    s.returned = [true, true, false] ∧ s.delivered 0 = [5] ∧ s.head.ptr = 2) ∧
    ∃ content queue, s.Safe content queue := by
  have ⟨s, hs, hvalues⟩ := Transition.System.Reachable.exists_of_run (M := lfQueueSystem Nat (Fin 2) (Fin 1)) rfl
    [.push 0 5 true, .produce 0, .new 0 1, .produce 0, .notify 0 none, .push 1 6 true, .produce 1, .new 1 2,
      .popAll 0, .consume 0, .consume 0, .consume 0, .popFront 0, .push 0 7 true, .produce 0, .new 0 1, .produce 0,
      .produce 1]
    (fun s => s.pushed = [5, 7, 6] ∧ s.returned = [true, true, false] ∧ s.delivered 0 = [5] ∧ s.head.ptr = 2)
    (by decide +kernel)
  exact ⟨s, hvalues, lfQueue_safe hs⟩

end Armsx3.Util
