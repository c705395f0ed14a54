import TrtLlm.Util.Machine

/-!
Regions and execution contexts in the hands of asynchronous hardware.

A lease is a region of memory that somebody uses: with the context of a kernel that may still
fill it, or as the source of a transfer that may still read it.  The kernels and the transfers
end on their own; a region may be given back only when nothing touches it any more, and a
context only when its kernel has ended.

* `Leases.Ok`: every region in use has exactly one lease, every context is free or belongs to
  exactly one lease, and every kernel and every transfer works for a lease;
* `Leases.Step`: what may be done with leases;
* `Leases.Step.ok`: a step keeps `Ok`;
* `Leases.Step.balance`: a region is given back as often as it was taken, less the time that it
  is in use.
-/

namespace TrtLlm

open Prod Multiset

variable {ρ κ : Type*}

/-- A region in use, with the context of the kernel that fills it and whether a transfer may
read it. -/
structure Lease (ρ κ : Type*) where
  region : ρ
  ctx : Option κ
  io : Bool
deriving DecidableEq

/-- What is in use, what is free, and what the hardware works on. -/
@[ext] structure Leases (ρ κ : Type*) where
  held : Set ρ
  leases : Multiset (Lease ρ κ)
  free : Multiset κ
  kernels : List (κ × ρ)
  transfers : List ρ

/-- A region is taken or given back. -/
inductive LeaseLabel (ρ : Type*) where
  | acquired (r : ρ)
  | released (r : ρ)
deriving DecidableEq

namespace Leases

/-- Every region in use has one lease, every context is free or belongs to one lease, and the
hardware only works for leases. -/
structure Ok (all : Multiset κ) (S : Leases ρ κ) : Prop where
  nodup : (S.leases.map Lease.region).Nodup
  held : ∀ r, r ∈ S.held ↔ ∃ l ∈ S.leases, l.region = r
  contexts : S.free + S.leases.filterMap Lease.ctx = all
  kernels : ∀ k ∈ S.kernels, ∃ l ∈ S.leases, l.ctx = some k.1 ∧ l.region = k.2
  transfers : ∀ r ∈ S.transfers, ∃ l ∈ S.leases, l.region = r ∧ l.io = true

/-- What may be done with leases. -/
inductive Step : Leases ρ κ → List (LeaseLabel ρ) → Leases ρ κ → Prop
  /-- A region and a context are taken, and a kernel may be started. -/
  | take {S : Leases ρ κ} {free : Multiset κ} {c : κ} {r : ρ} {ks : List (κ × ρ)}
      (hfree : S.free = c ::ₘ free) (hr : r ∉ S.held) (hks : ∀ k ∈ ks, k ∈ S.kernels ∨ k = (c, r)) :
      Step S [.acquired r]
        { held := insert r S.held, leases := ⟨r, some c, false⟩ ::ₘ S.leases, free := free,
          kernels := ks, transfers := S.transfers }
  /-- A region is taken and given back before anything was started. -/
  | touch {S : Leases ρ κ} {r : ρ} (hr : r ∉ S.held) : Step S [.acquired r, .released r] S
  /-- The kernel has ended: the context goes back. -/
  | gathered {S : Leases ρ κ} {rest : Multiset (Lease ρ κ)} {c : κ} {r : ρ}
      (hl : S.leases = ⟨r, some c, false⟩ ::ₘ rest) (hidle : c ∉ S.kernels.map fst) :
      Step S [] { S with leases := ⟨r, none, false⟩ ::ₘ rest, free := c ::ₘ S.free }
  /-- A transfer of the region is posted. -/
  | post {S : Leases ρ κ} {rest : Multiset (Lease ρ κ)} {r : ρ} (io : Bool)
      (hl : S.leases = ⟨r, none, false⟩ ::ₘ rest) :
      Step S [] { S with
        leases := ⟨r, none, io⟩ ::ₘ rest
        transfers := if io then S.transfers ++ [r] else S.transfers }
  /-- The transfer has ended. -/
  | landed {S : Leases ρ κ} {rest : Multiset (Lease ρ κ)} {r : ρ}
      (hl : S.leases = ⟨r, none, true⟩ ::ₘ rest) (hidle : r ∉ S.transfers) :
      Step S [] { S with leases := ⟨r, none, false⟩ ::ₘ rest }
  /-- A region is given back: no transfer is left. -/
  | drop {S : Leases ρ κ} {rest : Multiset (Lease ρ κ)} {r : ρ} {io : Bool}
      (hl : S.leases = ⟨r, none, io⟩ ::ₘ rest) (hidle : io = true → r ∉ S.transfers) :
      Step S [.released r] { S with held := S.held \ {r}, leases := rest }
  /-- A region and its context are given back: no kernel is left. -/
  | dropGather {S : Leases ρ κ} {rest : Multiset (Lease ρ κ)} {c : κ} {r : ρ}
      (hl : S.leases = ⟨r, some c, false⟩ ::ₘ rest) (hidle : c ∉ S.kernels.map fst) :
      Step S [.released r] { S with held := S.held \ {r}, leases := rest, free := c ::ₘ S.free }
  /-- Kernels and transfers end. -/
  | ends {S : Leases ρ κ} {ks : List (κ × ρ)} {ts : List ρ} (hks : ks.Sublist S.kernels)
      (hts : ts.Sublist S.transfers) : Step S [] { S with kernels := ks, transfers := ts }

section Step

variable {S S' : Leases ρ κ} {o : List (LeaseLabel ρ)} {all : Multiset κ}

variable {held : Set ρ} {l : Lease ρ κ} {r : ρ}

lemma contexts_some (r : ρ) (c : κ) (io : Bool) (rest : Multiset (Lease ρ κ)) :
    ((⟨r, some c, io⟩ : Lease ρ κ) ::ₘ rest).filterMap Lease.ctx
      = c ::ₘ rest.filterMap Lease.ctx :=
  filterMap_cons_some Lease.ctx _ _ rfl

lemma contexts_none (r : ρ) (io : Bool) (rest : Multiset (Lease ρ κ)) :
    ((⟨r, none, io⟩ : Lease ρ κ) ::ₘ rest).filterMap Lease.ctx = rest.filterMap Lease.ctx :=
  filterMap_cons_none _ _ rfl

/-- One lease is replaced by another of the same region. -/
lemma Ok.replace (h : Ok all S) {rest : Multiset (Lease ρ κ)} (hl : S.leases = l ::ₘ rest)
    (l' : Lease ρ κ) (hr : l'.region = l.region) {free : Multiset κ}
    {ts : List ρ} (hctx : free + (l' ::ₘ rest).filterMap Lease.ctx = all)
    (hk : ∀ k ∈ S.kernels, l.ctx = some k.1 → l'.ctx = some k.1)
    (ht : ∀ r ∈ ts, (r ∈ S.transfers ∧ (l.region = r → l.io = true → l'.io = true))
      ∨ (r = l'.region ∧ l'.io = true)) :
    Ok all { S with leases := l' ::ₘ rest, free := free, transfers := ts } := by
  refine ⟨?_, fun r => ?_, hctx, fun k hk' => ?_, fun r hr' => ?_⟩
  · have := h.nodup
    rw [hl, map_cons] at this
    rw [map_cons, hr]
    exact this
  · rw [h.held, hl]
    simp only [mem_cons, exists_eq_or_imp, hr]
  · obtain ⟨m, hm, hmc, hmr⟩ := h.kernels k hk'
    rw [hl, mem_cons] at hm
    rcases hm with rfl | hm
    · exact ⟨l', mem_cons_self _ _, hk k hk' hmc, hr.trans hmr⟩
    · exact ⟨m, mem_cons_of_mem hm, hmc, hmr⟩
  · rcases ht r hr' with ⟨hrt, hio⟩ | ⟨rfl, hio⟩
    · obtain ⟨m, hm, hmr, hmio⟩ := h.transfers r hrt
      rw [hl, mem_cons] at hm
      rcases hm with rfl | hm
      · exact ⟨l', mem_cons_self _ _, hr.trans hmr, hio hmr hmio⟩
      · exact ⟨m, mem_cons_of_mem hm, hmr, hmio⟩
    · exact ⟨l', mem_cons_self _ _, rfl, hio⟩

/-- One lease ends. -/
lemma Ok.remove (h : Ok all S) {rest : Multiset (Lease ρ κ)} (hl : S.leases = l ::ₘ rest)
    {free : Multiset κ}
    (hctx : free + rest.filterMap Lease.ctx = all)
    (hk : ∀ k ∈ S.kernels, l.ctx ≠ some k.1) (ht : l.io = true → l.region ∉ S.transfers) :
    Ok all { S with held := S.held \ {l.region}, leases := rest, free := free } := by
  have hnodup := h.nodup
  rw [hl, map_cons, nodup_cons] at hnodup
  refine ⟨hnodup.2, fun r => ?_, hctx, fun k hk' => ?_, fun r hr => ?_⟩
  · simp only [Set.mem_sdiff, h.held, hl, mem_cons, exists_eq_or_imp, Set.mem_singleton_iff]
    constructor
    · rintro ⟨rfl | hm, hne⟩
      · exact absurd rfl hne
      · exact hm
    · rintro ⟨m, hm, rfl⟩
      exact ⟨.inr ⟨m, hm, rfl⟩, fun he => hnodup.1 (he ▸ mem_map_of_mem _ hm)⟩
  · obtain ⟨m, hm, hmc, hmr⟩ := h.kernels k hk'
    rw [hl, mem_cons] at hm
    rcases hm with rfl | hm
    · exact absurd hmc (hk k hk')
    · exact ⟨m, hm, hmc, hmr⟩
  · obtain ⟨m, hm, rfl, hmio⟩ := h.transfers r hr
    rw [hl, mem_cons] at hm
    rcases hm with rfl | hm
    · exact absurd hr (ht hmio)
    · exact ⟨m, hm, rfl, hmio⟩

/-- **A step keeps the leases.** -/
theorem Step.ok (h : Ok all S) (m : Step S o S') : Ok all S' := by
  have hctxs := h.contexts
  cases m with
  | @take free c r ks hfree hr hks =>
    refine ⟨?_, fun x => ?_, ?_, fun k hk => ?_, fun x hx => ?_⟩
    · rw [map_cons, nodup_cons]
      refine ⟨fun hm => hr ?_, h.nodup⟩
      obtain ⟨l, hl, hlr⟩ := mem_map.mp hm
      exact (h.held r).mpr ⟨l, hl, hlr⟩
    · simp only [Set.mem_insert_iff, h.held, mem_cons, exists_eq_or_imp, eq_comm]
    · rw [hfree] at hctxs
      rw [← hctxs, contexts_some, add_cons, cons_add]
    · rcases hks k hk with hk | rfl
      · obtain ⟨l, hl, hrest⟩ := h.kernels k hk
        exact ⟨l, mem_cons_of_mem hl, hrest⟩
      · exact ⟨_, mem_cons_self _ _, rfl, rfl⟩
    · obtain ⟨l, hl, hrest⟩ := h.transfers x hx
      exact ⟨l, mem_cons_of_mem hl, hrest⟩
  | touch => exact h
  | @gathered rest c r hl hidle =>
    refine h.replace hl ⟨r, none, false⟩ rfl ?_ (fun k hk hc => ?_)
      (fun x hx => .inl ⟨hx, fun _ hio => hio⟩)
    · rw [← hctxs, hl, contexts_some, contexts_none, add_cons, cons_add]
    · obtain rfl : c = k.1 := Option.some_inj.mp hc
      exact absurd (List.mem_map_of_mem hk) hidle
  | @post rest r io hl =>
    refine h.replace hl ⟨r, none, io⟩ rfl ?_ (fun k hk hc => by cases hc) (fun x hx => ?_)
    · rw [← hctxs, hl, contexts_none, contexts_none]
    · split_ifs at hx with hio
      · rcases List.mem_append.mp hx with hx | hx
        · exact .inl ⟨hx, fun _ h' => by cases h'⟩
        · exact .inr ⟨List.mem_singleton.mp hx, hio⟩
      · exact .inl ⟨hx, fun _ h' => by cases h'⟩
  | @landed rest r hl hidle =>
    refine h.replace hl ⟨r, none, false⟩ rfl ?_ (fun k hk hc => by cases hc)
      (fun x hx => .inl ⟨hx, fun he => ?_⟩)
    · rw [← hctxs, hl, contexts_none, contexts_none]
    · obtain rfl : r = x := he
      exact absurd hx hidle
  | @drop rest r io hl hidle =>
    refine h.remove hl ?_ (fun k hk hc => by cases hc) hidle
    rw [← hctxs, hl, contexts_none]
  | @dropGather rest c r hl hidle =>
    refine h.remove hl ?_ (fun k hk hc => hidle ?_) (fun hio => by cases hio)
    · rw [← hctxs, hl, contexts_some, add_cons, cons_add]
    · rw [Option.some_inj.mp hc]
      exact List.mem_map_of_mem hk
  | ends hks hts =>
    exact ⟨h.nodup, h.held, h.contexts, fun k hk => h.kernels k (hks.subset hk),
      fun x hx => h.transfers x (hts.subset hx)⟩

/-- No kernel and no transfer works on a region. -/
def Idle (S : Leases ρ κ) (r : ρ) : Prop := r ∉ S.kernels.map snd ∧ r ∉ S.transfers

/-- Nothing works on a region that is not in use. -/
lemma Ok.idle_of_not_held (h : Ok all S) (hr : r ∉ S.held) : Idle S r := by
  refine ⟨fun hk => ?_, fun ht => ?_⟩
  · obtain ⟨k, hk', rfl⟩ := List.mem_map.mp hk
    obtain ⟨l, hl, -, hlr⟩ := h.kernels k hk'
    exact hr ((h.held _).mpr ⟨l, hl, hlr⟩)
  · obtain ⟨l, hl, hlr, -⟩ := h.transfers r ht
    exact hr ((h.held _).mpr ⟨l, hl, hlr⟩)

/-- One for a region in use, zero for another. -/
noncomputable def inUse (held : Set ρ) (r : ρ) : ℕ := held.indicator 1 r

lemma inUse_of_mem (h : r ∈ held) : inUse held r = 1 := Set.indicator_of_mem h 1

lemma inUse_of_not_mem (h : r ∉ held) : inUse held r = 0 := Set.indicator_of_notMem h 1

lemma inUse_congr {held' : Set ρ} (h : r ∈ held' ↔ r ∈ held) : inUse held' r = inUse held r := by
  by_cases hr : r ∈ held
  · rw [inUse_of_mem hr, inUse_of_mem (h.mpr hr)]
  · rw [inUse_of_not_mem hr, inUse_of_not_mem fun h' => hr (h.mp h')]

/-- A region is given back as often as it was taken, less the time that it is in use. -/
theorem Step.balance [DecidableEq ρ] (h : Ok all S) (m : Step S o S') (r : ρ) :
    o.count (.acquired r) + inUse S.held r = o.count (.released r) + inUse S'.held r := by
  have hgone : ∀ {x : ρ} {rest : Multiset (Lease ρ κ)} {l : Lease ρ κ}, S.leases = l ::ₘ rest →
      l.region = x →
      [LeaseLabel.released x].count (.acquired r) + inUse S.held r
        = [LeaseLabel.released x].count (.released r) + inUse (S.held \ {x}) r := by
    intro x rest l hl hx
    by_cases hrx : r = x
    · subst hrx
      rw [inUse_of_mem ((h.held r).mpr ⟨l, by simp [hl], hx⟩), inUse_of_not_mem (by simp)]
      simp
    · have hin : r ∈ S.held \ {x} ↔ r ∈ S.held := by simp [hrx]
      simp [inUse_congr hin, Ne.symm hrx]
  cases m with
  | @take free c x ks hfree hx hks =>
    by_cases hrx : r = x
    · subst hrx
      rw [inUse_of_not_mem hx, inUse_of_mem (Set.mem_insert _ _)]
      simp
    · have hin : r ∈ insert x S.held ↔ r ∈ S.held := by simp [hrx]
      simp [inUse_congr hin, Ne.symm hrx]
  | @touch x hx => simp [List.count_cons]
  | gathered | post | landed | ends => rfl
  | drop hl => exact hgone hl rfl
  | dropGather hl => exact hgone hl rfl

end Step

end Leases

end TrtLlm
