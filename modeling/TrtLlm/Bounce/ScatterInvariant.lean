import TrtLlm.Bounce.Receiver
import TrtLlm.Bounce.RegionOwnership

/-!
The regions of the bounce receiver with a scatter job.

A region with a scatter job that is queued, running or not yet drained must stay out of
circulation.  The invariant ties the jobs to `mScattering` and to the scheduler
(`ScatterInv`): every region of the map has one job; an unflagged one is held by the flow of
its job, and the flagged ones are the orphans of the scheduler.  It is stated on the
scheduler, the map and the list of jobs, with a list of orphans whose job `forget` has
removed and whose region it has yet to free.  There is one lemma for each way in which a handler
moves the three.
-/

namespace TrtLlm

open CreditScheduler List Prod UMap

/-- The invariant that ties scheduler, `mScattering` and jobs together. -/
structure ScatterInv (c : CreditScheduler) (m : UMap ℕ Bool) (jobs : List (Bytes × ℕ))
    (extra : List ℕ) : Prop where
  owned : Owned c.live c.owns
  nodup : (jobs.map snd).Nodup
  scattering : ∀ off, off ∈ m ↔ off ∈ jobs.map snd
  held : ∀ key off, (key, off) ∈ jobs → m.find? off = some false → c.heldByFlow key off = true
  orphan : ∀ off, off ∈ c.mOrphans ↔ m.find? off = some true ∨ off ∈ extra
  extra_nodup : extra.Nodup
  extra_idle : ∀ off ∈ extra, off ∉ m

namespace ScatterInv

variable {c c' : CreditScheduler} {m : UMap ℕ Bool} {jobs jobs' : List (Bytes × ℕ)}
  {extra : List ℕ} {gs : List Grant}

variable {H : Set ℕ} {key : Bytes} {off : ℕ}

section

variable (h : ScatterInv c m jobs extra)
include h

lemma perm (hp : jobs.Perm jobs') : ScatterInv c m jobs' extra :=
  ⟨h.owned, (hp.map snd).nodup h.nodup, fun off => (h.scattering off).trans (hp.map snd).mem_iff,
    fun key off hj => h.held key off (hp.mem_iff.mpr hj), h.orphan, h.extra_nodup, h.extra_idle⟩

/-- The flag of a job is there. -/
lemma flag (hj : (key, off) ∈ jobs) : m.find? off = some false ∨ m.find? off = some true := by
  have hm : off ∈ m := (h.scattering off).mpr (mem_map.mpr ⟨_, hj, rfl⟩)
  obtain ⟨b, hb⟩ := mem_iff_find?.mp hm
  cases b with
  | false => exact Or.inl hb
  | true => exact Or.inr hb

/-- The region of a job is with the flow of the job, or an orphan. -/
lemma owner (hj : (key, off) ∈ jobs) : (m.find? off = some false ∧ c.heldByFlow key off = true)
      ∨ (m.find? off = some true ∧ off ∈ c.mOrphans) := by
  rcases h.flag hj with hf | hf
  · exact Or.inl ⟨hf, h.held key off hj hf⟩
  · exact Or.inr ⟨hf, (h.orphan off).mpr (Or.inl hf)⟩

/-- The region of a job is live. -/
lemma job_live (hj : (key, off) ∈ jobs) : off ∈ c.live := by
  rcases h.owner hj with ⟨-, hh⟩ | ⟨-, hh⟩
  · exact heldByFlow_live h.owned hh
  · exact h.owned.mem_live (i := .orphans) hh

/-- What the local sender or the quarantine has is neither an orphan nor the region of a job. -/
lemma idle_of_owns {o : Owner} (hflow : ∀ key, o ≠ .flow key)
    (ho : o ≠ .orphans) {x : ℕ} (hx : x ∈ c.owns o) : x ∉ m ∧ x ∉ c.mOrphans := by
  have hno : x ∉ c.mOrphans := fun hx' => ho (h.owned.eq_of_mem (j := .orphans) hx hx')
  refine ⟨fun hm => ?_, hno⟩
  obtain ⟨⟨key, off⟩, hj, rfl⟩ := mem_map.mp ((h.scattering x).mp hm)
  rcases h.owner hj with ⟨-, hh⟩ | ⟨-, hh⟩
  · exact hflow key (h.owned.eq_of_mem (j := .flow key) hx hh)
  · exact hno hh

/-- A block for the local sender. -/
lemma acquired (ha : Acquired c c' off) : ScatterInv c' m jobs extra := by
  refine ⟨ha.owned h.owned, h.nodup, h.scattering, fun key x hj hf => ?_, fun x => ?_,
    h.extra_nodup, h.extra_idle⟩
  · exact (ha.owns (.flow key) x).mpr (Or.inr (h.held key x hj hf))
  · rw [← h.orphan x]
    have := ha.owns .orphans x
    simp only [reduceCtorEq, false_and, false_or] at this
    exact this

/-- A call that takes no region with a job and no orphan. -/
lemma call (he : Effect c gs c' H fun _ => none)
    (hH : H ⊆ c.live) (hm : ∀ x ∈ H, x ∉ m) (ho : ∀ x ∈ H, x ∉ c.mOrphans) :
    ScatterInv c' m jobs extra := by
  refine ⟨he.owned hH h.owned, h.nodup, h.scattering, fun key off hj hf => ?_, fun off => ?_,
    h.extra_nodup, h.extra_idle⟩
  · have hnot : off ∉ H := fun hx => hm off hx (mem_of_find? hf)
    exact he.owns_of_not_mem (o := .flow key) hnot (h.held key off hj hf)
  · rw [← h.orphan off]
    have := he.mem_owns_of_ne_flow (o := .orphans) (fun _ => Owner.noConfusion) off
    simp only [reduceCtorEq, and_false, false_or] at this
    exact this.trans ⟨fun hx => hx.2, fun hx => ⟨fun hH' => ho off hH' hx, hx⟩⟩

/-- A call returns no region with a job, unless it takes that region. -/
lemma not_granted {dst : ℕ → Option Owner}
    (he : Effect c gs c' H dst) {g : Grant} (hg : g ∈ gs)
    (hj : (key, g.offset) ∈ jobs) : g.offset ∈ H ∧ dst g.offset = none :=
  he.grant_not_live hg (h.job_live hj)

end

/-! ### Reclaiming -/

lemma find?_foldl_set (l : List ℕ) : ∀ (m : UMap ℕ Bool) (x : ℕ),
    (l.foldl (fun m off => m.set off true) m).find? x = if x ∈ l then some true else m.find? x := by
  induction l with
  | nil => simp
  | cons off l ih =>
    intro m x
    rw [foldl_cons, ih, find?_set]
    by_cases hx : x = off <;> by_cases hl : x ∈ l <;> simp [hx, hl]

section

variable (h : ScatterInv c m jobs extra)
include h

/-- A reclaim with the scattering regions as the busy set, and the flags it sets. -/
lemma reclaim {quarantineFor : ℤ} {deferred : List ℕ}
    (he : Effect c gs c' H (reclaimDst (USet.ofKeys m) quarantineFor))
    (hH : ∀ x ∈ H, ∃ key, c.heldByFlow key x = true) (hd : ∀ x, x ∈ deferred ↔ x ∈ H ∧ x ∈ m) :
    ScatterInv c' (deferred.foldl (fun m off => m.set off true) m) jobs extra
      ∧ (∀ x ∈ deferred, x ∉ c.mOrphans)
      ∧ (∀ x, x ∈ c'.mOrphans ↔ x ∈ deferred ∨ x ∈ c.mOrphans)
      ∧ ∀ g ∈ gs, ∀ key, (key, g.offset) ∉ jobs := by
  have hlive : H ⊆ c.live := by
    intro x hx
    obtain ⟨key, hk⟩ := hH x hx
    exact heldByFlow_live h.owned hk
  -- a region that is taken is held by a flow, so it is no orphan
  have hno : ∀ x ∈ H, x ∉ c.mOrphans := by
    intro x hx hox
    obtain ⟨key, hk⟩ := hH x hx
    exact Owner.noConfusion (h.owned.eq_of_mem (i := .flow key) (j := .orphans) hk hox)
  have horph : ∀ x, x ∈ c'.mOrphans ↔ x ∈ deferred ∨ x ∈ c.mOrphans := by
    intro x
    have hmem := he.mem_owns_of_ne_flow (o := .orphans) (fun _ => Owner.noConfusion) x
    have hdst : reclaimDst (USet.ofKeys m) quarantineFor x = some .orphans ↔ x ∈ m := by
      rw [reclaimDst]
      split_ifs with h1 h2
      · simpa using h1
      · simpa using h1
      · simpa using h1
    rw [hdst] at hmem
    refine hmem.trans ?_
    rw [hd]
    refine or_congr_right ⟨fun hx => hx.2, fun hx => ⟨fun hx' => hno x hx' hx, hx⟩⟩
  have hdom : ∀ x, x ∈ deferred.foldl (fun m off => m.set off true) m ↔ x ∈ m := by
    intro x
    rw [mem_iff_find?, mem_iff_find?, find?_foldl_set]
    split_ifs with hx
    · exact ⟨fun _ => mem_iff_find?.mp ((hd x).mp hx).2, fun _ => ⟨true, rfl⟩⟩
    · exact Iff.rfl
  refine ⟨⟨he.owned hlive h.owned, h.nodup, fun off => (hdom off).trans (h.scattering off),
    fun key off hj hf => ?_, fun off => ?_, h.extra_nodup, fun off hx hx' =>
      h.extra_idle off hx ((hdom off).mp hx')⟩, fun x hx => hno x ((hd x).mp hx).1, horph,
    fun g hg key hj => ?_⟩
  · rw [find?_foldl_set] at hf
    have hdef : off ∉ deferred := by
      intro hx
      rw [if_pos hx] at hf
      cases hf
    rw [if_neg hdef] at hf
    have hm : off ∈ m := mem_of_find? hf
    exact he.owns_of_not_mem (o := .flow key) (fun hx => hdef ((hd off).mpr ⟨hx, hm⟩))
      (h.held key off hj hf)
  · rw [horph, h.orphan, find?_foldl_set]
    by_cases hdef : off ∈ deferred
    · simp [hdef]
    · simp [hdef]
  · have hbusy : g.offset ∈ m := (h.scattering _).mpr (mem_map.mpr ⟨_, hj, rfl⟩)
    have hnone := (h.not_granted he hg hj).2
    rw [reclaimDst, if_pos (USet.mem_ofKeys.mpr hbusy)] at hnone
    exact Option.some_ne_none _ hnone

/-! ### Jobs that come and go -/

/-- A job for a region that its flow holds and that has none. -/
lemma add (hm : off ∉ m) (hh : c.heldByFlow key off = true) :
    ScatterInv c (m.emplace off false) ((key, off) :: jobs) extra := by
  have hjobs : off ∉ jobs.map snd := fun hx => hm ((h.scattering off).mpr hx)
  have hnorph : off ∉ c.mOrphans := fun hx =>
    Owner.noConfusion (h.owned.eq_of_mem (i := .flow key) (j := .orphans) hh hx)
  have hfind : ∀ x, (m.emplace off false).find? x = if x = off then some false else m.find? x := by
    intro x
    rw [find?_emplace]
    by_cases hx : x = off <;> simp [hx, hm]
  refine ⟨h.owned, nodup_cons.mpr ⟨hjobs, h.nodup⟩, fun x => ?_, fun k x hj hf => ?_, fun x => ?_,
    h.extra_nodup, fun x hx hx' => ?_⟩
  · rw [mem_emplace, h.scattering, map_cons, mem_cons]
  · rcases mem_cons.mp hj with he | hj'
    · obtain ⟨rfl, rfl⟩ := Prod.mk.inj he
      exact hh
    · rw [hfind] at hf
      have hx : x ≠ off := by
        rintro rfl
        exact hjobs (mem_map_of_mem hj')
      rw [if_neg hx] at hf
      exact h.held k x hj' hf
  · rw [h.orphan, hfind]
    by_cases hx : x = off
    · subst hx
      have hnone : m.find? x = none := find?_eq_none_iff.mpr hm
      simp [hnone]
    · simp [hx]
  · rcases mem_emplace.mp hx' with rfl | hx'
    · exact hnorph ((h.orphan x).mpr (Or.inr hx))
    · exact h.extra_idle x hx hx'

/-- A job goes, and with it the entry of its region.  A flagged region is an orphan from then
on that no job stands for. -/
lemma drop {key : Bytes} {off : ℕ} (hp : jobs.Perm ((key, off) :: jobs')) :
    ScatterInv c (m.erase off) jobs'
      (if m.find? off = some true then extra ++ [off] else extra) := by
  have h' := h.perm hp
  have hnd := h'.nodup
  rw [map_cons, nodup_cons] at hnd
  have hoff : off ∈ m := (h'.scattering off).mpr (mem_map.mpr ⟨_, mem_cons_self, rfl⟩)
  refine ⟨h.owned, hnd.2, fun x => ?_, fun k x hj hf => ?_, fun x => ?_, ?_, fun x hx => ?_⟩
  · rw [mem_erase, h'.scattering, map_cons, mem_cons]
    refine ⟨fun hx => hx.2.elim (fun he => absurd he hx.1) id, fun hx => ⟨?_, Or.inr hx⟩⟩
    rintro rfl
    exact hnd.1 hx
  · rw [find?_erase] at hf
    split_ifs at hf
    exact h'.held k x (mem_cons_of_mem _ hj) hf
  · rw [h.orphan, find?_erase]
    by_cases hx : x = off
    · subst hx
      have hex : x ∉ extra := fun he => h.extra_idle x he hoff
      by_cases hf : m.find? x = some true
      · simp [hf]
      · simp [hf, hex]
    · by_cases hf : m.find? off = some true <;> simp [hx, hf]
  · split_ifs
    · rw [nodup_append']
      refine ⟨h.extra_nodup, nodup_singleton off, fun x hx hx' => ?_⟩
      rw [mem_singleton] at hx'
      subst hx'
      exact h.extra_idle x hx hoff
    · exact h.extra_nodup
  · rw [mem_erase]
    split_ifs at hx
    · rcases mem_append.mp hx with hx | hx
      · exact fun hx' => h.extra_idle x hx hx'.2
      · exact fun hx' => hx'.1 (mem_singleton.mp hx)
    · exact fun hx' => h.extra_idle x hx hx'.2

end

/-- `freeOrphanRegion` of an orphan that no job stands for. -/
lemma freeOrphan (h : ScatterInv c m jobs (off :: extra)) (pick : List ℕ → ℕ) :
    ScatterInv (freeOrphanRegion pick c off).2 m jobs extra
      ∧ off ∈ c.mOrphans
      ∧ (∀ x, x ∈ (freeOrphanRegion pick c off).2.mOrphans ↔ x ≠ off ∧ x ∈ c.mOrphans)
      ∧ ∀ g ∈ (freeOrphanRegion pick c off).1, ∀ key, (key, g.offset) ∉ jobs := by
  have hoff : off ∈ c.mOrphans := (h.orphan off).mpr (Or.inr mem_cons_self)
  have hnd := nodup_cons.mp h.extra_nodup
  have hnm : off ∉ m := h.extra_idle off mem_cons_self
  have he := freeOrphanRegion_effect pick h.owned off
  have horph : ∀ x, x ∈ (freeOrphanRegion pick c off).2.mOrphans ↔ x ≠ off ∧ x ∈ c.mOrphans := by
    intro x
    have := he.mem_owns_of_ne_flow (o := .orphans) (fun _ => Owner.noConfusion) x
    simp only [reduceCtorEq, and_false, false_or] at this
    refine this.trans ⟨fun hx => ⟨fun hxo => hx.1 ⟨hxo, hx.2⟩, hx.2⟩, fun hx => ⟨?_, hx.2⟩⟩
    exact fun hx' => hx.1 hx'.1
  refine ⟨⟨he.owned (fun x hx => h.owned.mem_live (i := .orphans) hx.2) h.owned, h.nodup,
    h.scattering, fun key x hj hf => ?_, fun x => ?_, hnd.2,
    fun x hx => h.extra_idle x (mem_cons_of_mem _ hx)⟩, hoff, horph, fun g hg key hj => ?_⟩
  · refine he.owns_of_not_mem (o := .flow key) ?_ (h.held key x hj hf)
    rintro ⟨rfl, -⟩
    exact hnm (mem_of_find? hf)
  · rw [horph, h.orphan, mem_cons]
    constructor
    · rintro ⟨hne, hx | rfl | hx⟩
      · exact Or.inl hx
      · exact absurd rfl hne
      · exact Or.inr hx
    · rintro (hx | hx)
      · exact ⟨fun he => hnm (he ▸ mem_of_find? hx), Or.inl hx⟩
      · exact ⟨fun he => hnd.1 (he ▸ hx), Or.inr (Or.inr hx)⟩
  · obtain ⟨⟨hgo, -⟩, -⟩ := h.not_granted he hg hj
    exact hnm (hgo ▸ (h.scattering _).mpr (mem_map.mpr ⟨_, hj, rfl⟩))

/-- `onScatterDone` for a job whose flow is still there. -/
lemma scatterDone (h : ScatterInv c m jobs extra) (hp : jobs.Perm ((key, off) :: jobs'))
    (hf : m.find? off = some false) (pick : List ℕ → ℕ) :
    ScatterInv (onScatterDone pick c key off).2 (m.erase off) jobs' extra
      ∧ (∀ x, x ∈ (onScatterDone pick c key off).2.mOrphans ↔ x ∈ c.mOrphans)
      ∧ ∀ g ∈ (onScatterDone pick c key off).1, ∀ key', (key', g.offset) ∉ jobs' := by
  have hdrop := h.drop hp
  rw [if_neg (by rw [hf]; simp)] at hdrop
  have he := onScatterDone_effect pick h.owned key off
  have hno : ∀ x ∈ { x | x = off ∧ c.heldByFlow key x = true }, x ∉ c.mOrphans := by
    rintro x ⟨-, hh⟩ hx
    exact Owner.noConfusion (h.owned.eq_of_mem (i := .flow key) (j := .orphans) hh hx)
  refine ⟨hdrop.call he (fun x hx => heldByFlow_live h.owned hx.2) ?_ hno, fun x => ?_,
    fun g hg key' hj => ?_⟩
  · rintro x ⟨rfl, -⟩
    simp
  · have := he.mem_owns_of_ne_flow (o := .orphans) (fun _ => Owner.noConfusion) x
    simp only [reduceCtorEq, and_false, false_or] at this
    exact this.trans ⟨fun hx => hx.2, fun hx => ⟨fun hx' => hno x hx' hx, hx⟩⟩
  · obtain ⟨⟨hgo, -⟩, -⟩ := hdrop.not_granted he hg hj
    have : g.offset ∈ m.erase off := (hdrop.scattering _).mpr (mem_map.mpr ⟨_, hj, rfl⟩)
    exact (mem_erase.mp this).1 hgo

end ScatterInv

end TrtLlm
