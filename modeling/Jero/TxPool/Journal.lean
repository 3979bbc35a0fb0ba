import Jero.TxPool.BookkeptReload
import Jero.TxPool.Info

namespace Jero.TxPool
open Jero.Lists Jero.Tx Jero.Sync List Function SortedMap Journal.Elapses

structure TransientLists where
  addedTxsById : SortedMap Hash AddedTxInfo
  addedTxsStartTime : Nat
  removedTxsByTime : List (Nat × RemovedTxInfo)
  removedTxsStartTime : Nat

def AddedTxInfo.stamp (info : AddedTxInfo) : Stamp := ⟨info.receiveTime, info.sensitive⟩

namespace Pool
variable {p q r : Pool} {env : PoolEnv} {now : Nat} {id : Hash} {e : PoolEntry}

def lists (p : Pool) : TransientLists :=
  ⟨p.addedTxsById, p.addedTxsStartTime, p.removedTxsByTime, p.removedTxsStartTime⟩

def isOpen (e : PoolEntry) : Bool := e.txMeta.matchesRelay .broadcasted

structure RemovalLog (now lost : Nat) (p : Pool) : Prop where
  sorted : p.removedTxsByTime.Pairwise (fun a b => a.1 ≤ b.1)
  times : ∀ x ∈ p.removedTxsByTime, lost ≤ x.1 ∧ x.1 ≤ now
  start : p.removedTxsStartTime = 0 ∨ lost ≤ p.removedTxsStartTime
  lost : lost ≤ now

structure Logs (p : Pool) (x : Nat × RemovedTxInfo) (lost : Nat) (q : Pool) : Prop where
  only : ∀ y ∈ q.removedTxsByTime, y ∈ p.removedTxsByTime ∨ y = x
  kept : ∀ y, y ∈ p.removedTxsByTime ∨ y = x → y ∈ q.removedTxsByTime ∨ y.1 ≤ lost

variable {log : List (Nat × RemovedTxInfo)} {x : Nat × RemovedTxInfo}

theorem RemovalLog.trimmed {kept : List (Nat × RemovedTxInfo)} {cut : Nat}
    (hlog : ∀ y, y ∈ log ↔ y ∈ p.removedTxsByTime ∨ y = x)
    (hsorted : log.Pairwise (fun a b => a.1 ≤ b.1)) (htimes : ∀ y ∈ log, y.1 ≤ now)
    (hsub : kept.Sublist log) (hkept : ∀ y ∈ kept, cut ≤ y.1)
    (hdropped : ∀ y ∈ log, y ∈ kept ∨ y.1 ≤ cut) (hcut : cut ≤ now) :
    Pool.RemovalLog now cut { p with removedTxsByTime := kept, removedTxsStartTime := cut } ∧
      Logs p x cut { p with removedTxsByTime := kept, removedTxsStartTime := cut } := by
  refine ⟨⟨hsorted.sublist hsub, ?_, .inr le_rfl, hcut⟩, ?_, ?_⟩
  · intro y hy
    exact ⟨hkept y hy, htimes y (hsub.subset hy)⟩
  · intro y hy
    exact (hlog y).mp (hsub.subset hy)
  · intro y hy
    exact hdropped y ((hlog y).mpr hy)

theorem pairwise_drop_cons {n : Nat} (hsorted : log.Pairwise (fun a b => a.1 ≤ b.1))
    {rest : List (Nat × RemovedTxInfo)} (hdrop : log.drop n = x :: rest) :
    (∀ y ∈ log.drop n, x.1 ≤ y.1) ∧ ∀ y ∈ log, y ∈ log.drop n ∨ y.1 ≤ x.1 := by
  rw [← take_append_drop n log, pairwise_append] at hsorted
  obtain ⟨-, hkept, hcross⟩ := hsorted
  refine ⟨?_, ?_⟩
  · rw [hdrop] at hkept ⊢
    intro y hy
    rcases mem_cons.mp hy with rfl | htail
    · exact le_rfl
    · exact (pairwise_cons.mp hkept).1 y htail
  · intro y hy
    rw [← take_append_drop n log] at hy
    rcases mem_append.mp hy with htaken | hdropped
    · exact .inr (hcross y htaken x (hdrop ▸ mem_cons_self))
    · exact .inl hdropped

theorem RemovalLog.trackRemovedTx {lost : Nat} (h : p.RemovalLog now lost) (id : Hash)
    (sensitive : Bool) :
    ∃ lost' ≥ lost, (p.trackRemovedTx now id sensitive).RemovalLog now lost' ∧
      Logs p (now, ⟨id, sensitive⟩) lost' (p.trackRemovedTx now id sensitive) := by
  have hbefore : p.removedTxsByTime.filter (fun x => x.1 ≤ now) = p.removedTxsByTime :=
    filter_eq_self.mpr (fun x hx => decide_eq_true (h.times x hx).2)
  have hlater : p.removedTxsByTime.filter (fun x => ¬ x.1 ≤ now) = [] :=
    filter_eq_nil_iff.mpr (fun x hx => by simpa using (h.times x hx).2)
  set log := p.removedTxsByTime ++ [(now, (⟨id, sensitive⟩ : RemovedTxInfo))] with hlog
  have hmem : ∀ y, y ∈ log ↔ y ∈ p.removedTxsByTime ∨ y = (now, ⟨id, sensitive⟩) := by
    intro y
    rw [hlog, mem_append, mem_singleton]
  have hsorted : log.Pairwise (fun a b => a.1 ≤ b.1) := by
    refine pairwise_append.mpr ⟨h.sorted, pairwise_singleton _ _, ?_⟩
    intro a ha b hb
    obtain rfl := mem_singleton.mp hb
    exact (h.times a ha).2
  have htimes : ∀ y ∈ log, lost ≤ y.1 ∧ y.1 ≤ now := by
    intro y hy
    rcases (hmem y).mp hy with hold | rfl
    · exact h.times y hold
    · exact ⟨h.lost, le_rfl⟩
  have hstart : (if p.removedTxsStartTime = 0 then now else p.removedTxsStartTime) = 0 ∨
      lost ≤ if p.removedTxsStartTime = 0 then now else p.removedTxsStartTime := by
    split
    · exact .inr h.lost
    · exact h.start
  simp only [Pool.trackRemovedTx, hbefore, hlater, ← hlog]
  split
  · rename_i hmany
    have hlt : maxRemoved / 4 + 1 < log.length := lt_trans (by decide) hmany
    have hdrop := drop_eq_getElem_cons hlt
    obtain ⟨hkept, hdropped⟩ := pairwise_drop_cons hsorted hdrop
    have hfirst := htimes _ (getElem_mem hlt)
    have hhead : ((log.drop (maxRemoved / 4 + 1)).head?.map Prod.fst).getD
        (if p.removedTxsStartTime = 0 then now else p.removedTxsStartTime) =
          log[maxRemoved / 4 + 1].1 := by
      rw [hdrop]
      rfl
    rw [hhead]
    exact ⟨_, hfirst.1, RemovalLog.trimmed hmem hsorted (fun y hy => (htimes y hy).2)
      (drop_sublist _ _) hkept hdropped hfirst.2⟩
  · split
    · rename_i hfewer
      have hold : ∃ y ∈ log, y.1 < now - 30 * 60 := by
        by_contra hnone
        push Not at hnone
        have hall : log.filter (fun y => ¬ y.1 < now - 30 * 60) = log :=
          filter_eq_self.mpr (fun y hy => by simpa using hnone y hy)
        rw [hall] at hfewer
        exact absurd hfewer (lt_irrefl _)
      obtain ⟨old, hin, hearly⟩ := hold
      refine ⟨now - 30 * 60, ((htimes old hin).1.trans_lt hearly).le,
        RemovalLog.trimmed hmem hsorted (fun y hy => (htimes y hy).2) filter_sublist ?_ ?_
          (Nat.sub_le _ _)⟩
      · intro y hy
        simpa using (mem_filter.mp hy).2
      · intro y hy
        rcases lt_or_ge y.1 (now - 30 * 60) with hlt | hge
        · exact .inr hlt.le
        · exact .inl (mem_filter.mpr ⟨hy, by simpa using hge⟩)
    · refine ⟨lost, le_rfl, ⟨hsorted, htimes, hstart, h.lost⟩, ?_, ?_⟩
      · intro y hy
        exact (hmem y).mp hy
      · intro y hy
        exact .inl ((hmem y).mpr hy)

def Shown (p : Pool) : Prop :=
  ∀ id info, p.addedTxsById.find? id = some info →
    ∃ e, p.db.find? id = some e ∧ (info.sensitive = false → isOpen e = true)

structure Records (now : Nat) (p : Pool) (j : Journal Hash) : Prop where
  present : ∀ id, j.present id = (p.addedTxsById.find? id).map AddedTxInfo.stamp
  presentFrom : j.presentFrom = p.addedTxsStartTime
  gone : ∀ d, d ∈ j.gone ↔ (d.time, ⟨d.key, d.hidden⟩) ∈ p.removedTxsByTime
  log : p.RemovalLog now j.lost
  shown : p.Shown

def Advances (a b : Nat) (p q : Pool) : Prop :=
  ∀ j, Records a p j → ∃ g, Records b q g ∧ Journal.Elapses a j b g

theorem Advances.trans {a b c : Nat} (hpq : Advances a b p q) (hqr : Advances b c q r) :
    Advances a c p r := by
  intro j hj
  obtain ⟨g, hg, hfirst⟩ := hpq j hj
  obtain ⟨h, hh, hsecond⟩ := hqr g hg
  exact ⟨h, hh, hfirst.trans hsecond⟩

namespace Records
variable {j : Journal Hash}

theorem wait {later : Nat} (h : Records now p j) (hle : now ≤ later) : Records later p j :=
  ⟨h.present, h.presentFrom, h.gone, ⟨h.log.sorted, fun x hx =>
    ⟨(h.log.times x hx).1, (h.log.times x hx).2.trans hle⟩, h.log.start, h.log.lost.trans hle⟩,
    h.shown⟩

theorem congr (h : Records now p j) (hlists : q.lists = p.lists) (hshown : q.Shown) :
    Records now q j := by
  obtain ⟨hadded, hfrom, hremoved, hstart⟩ := TransientLists.mk.inj hlists
  refine ⟨?_, ?_, ?_, ⟨?_, ?_, ?_, h.log.lost⟩, hshown⟩
  · rw [hadded]
    exact h.present
  · rw [hfrom]
    exact h.presentFrom
  · rw [hremoved]
    exact h.gone
  · rw [hremoved]
    exact h.log.sorted
  · rw [hremoved]
    exact h.log.times
  · rw [hstart]
    exact h.log.start

theorem admits (h : Records now p j) (hfind : p.db.find? id = some e) :
    j.Admits id (!isOpen e) := by
  intro s hs hhidden
  rw [h.present] at hs
  obtain ⟨info, hinfo, rfl⟩ := Option.map_eq_some_iff.mp hs
  obtain ⟨e', he', hopen⟩ := h.shown id info hinfo
  obtain rfl := Option.some.inj (hfind.symm.trans he')
  rw [hopen hhidden]
  rfl

end Records

theorem advances_quiet (hlists : q.lists = p.lists)
    (hdb : ∀ id info e, p.addedTxsById.find? id = some info → p.db.find? id = some e →
      ∃ e', q.db.find? id = some e' ∧ (isOpen e = true → isOpen e' = true)) :
    Advances now now p q := by
  intro j hj
  refine ⟨j, hj.congr hlists ?_, .refl now j⟩
  intro id info hinfo
  have hadded : q.addedTxsById = p.addedTxsById := congrArg TransientLists.addedTxsById hlists
  rw [hadded] at hinfo
  obtain ⟨e, he, hopen⟩ := hj.shown id info hinfo
  obtain ⟨e', he', hstill⟩ := hdb id info e hinfo he
  exact ⟨e', he', fun hvisible => hstill (hopen hvisible)⟩

theorem advances_same (hlists : q.lists = p.lists) (hdb : q.db = p.db) : Advances now now p q := by
  refine advances_quiet hlists ?_
  intro id info e _ he
  exact ⟨e, hdb ▸ he, fun hopen => hopen⟩

theorem Advances.refl (now : Nat) (p : Pool) : Advances now now p p := advances_same rfl rfl

theorem advances_wait {a b : Nat} (hle : a ≤ b) (p : Pool) : Advances a b p p := by
  intro j hj
  exact ⟨j, hj.wait hle, (refl a j).wait hle⟩

theorem records_blank (hlists : p.lists = ⟨.empty, 0, [], 0⟩) (now : Nat) :
    Records now p .blank := by
  obtain ⟨hadded, hfrom, hremoved, hstart⟩ := TransientLists.mk.inj hlists
  refine ⟨?_, hfrom.symm, ?_, ⟨?_, ?_, .inl hstart, Nat.zero_le _⟩, ?_⟩
  · intro i
    rw [hadded]
    rfl
  · intro d
    rw [hremoved]
    simp [Journal.blank]
  · rw [hremoved]
    exact List.Pairwise.nil
  · rw [hremoved]
    simp
  · intro i info hinfo
    rw [hadded] at hinfo
    cases hinfo

theorem advances_reset (hlists : q.lists = ⟨.empty, 0, [], 0⟩) : Advances now now p q := by
  intro j hj
  exact ⟨.blank, records_blank hlists now, (refl now j).step .reset⟩

theorem advances_listed (hfind : p.db.find? id = some e) (fee : Rat) (receiveTime : Nat) :
    Advances now now p (p.addTxToTransientLists now id fee receiveTime (!isOpen e)) := by
  intro j hj
  refine ⟨j.arrived now id (!isOpen e), ?_, (refl now j).step
    (.arrive (hj.admits hfind))⟩
  refine ⟨?_, ?_, hj.gone, ⟨hj.log.sorted, hj.log.times, hj.log.start, hj.log.lost⟩, ?_⟩
  · intro i
    simp only [Journal.arrived, addTxToTransientLists, update_apply, find?_insert, hj.present]
    split
    · rfl
    · rfl
  · simp only [Journal.arrived, addTxToTransientLists, hj.presentFrom]
  · intro i info hinfo
    simp only [addTxToTransientLists, find?_insert] at hinfo
    split at hinfo
    · rename_i heq
      obtain rfl := Option.some.inj hinfo
      exact ⟨e, heq ▸ hfind, fun hvisible => by simpa using hvisible⟩
    · exact hj.shown i info hinfo

theorem advances_unlisted (hlists : q.lists = p.lists) (hfind : p.db.find? id = some e)
    (hdb : ∀ i, i ≠ id → q.db.find? i = p.db.find? i) :
    Advances now now p (q.removeTxFromTransientLists now id (!isOpen e)) := by
  intro j hj
  obtain ⟨hadded, hfrom, hremoved, hstart⟩ := TransientLists.mk.inj hlists
  have hlog : RemovalLog now j.lost { q with
      txsByFeeAndReceiveTime := q.txsByFeeAndReceiveTime.erase id
      addedTxsById := q.addedTxsById.erase id } := by
    refine ⟨?_, ?_, ?_, hj.log.lost⟩
    · rw [hremoved]
      exact hj.log.sorted
    · rw [hremoved]
      exact hj.log.times
    · rw [hstart]
      exact hj.log.start
  obtain ⟨lost, hle, hlogged, honly, hkept⟩ := hlog.trackRemovedTx id (!isOpen e)
  obtain ⟨removed, start, hresult⟩ := removeTxFromTransientLists_eq q now id (!isOpen e)
  have herased : (q.removeTxFromTransientLists now id (!isOpen e)).addedTxsById =
      p.addedTxsById.erase id := by rw [hresult, hadded]
  have hpresent : ∀ i, update j.present id none i =
      ((p.addedTxsById.erase id).find? i).map AddedTxInfo.stamp := by
    intro i
    rw [update_apply, find?_erase, hj.present]
    split
    · rfl
    · rfl
  have hleft : j.Left now id (!isOpen e) ⟨update j.present id none, j.presentFrom,
      {d | (d.time, ⟨d.key, d.hidden⟩) ∈
        (q.removeTxFromTransientLists now id (!isOpen e)).removedTxsByTime}, lost⟩ := by
    refine ⟨rfl, rfl, ?_, ?_, hle⟩
    · intro d hd
      rcases honly _ hd with hold | hnew
      · refine .inl ((hj.gone d).mpr ?_)
        rw [← hremoved]
        exact hold
      · cases d
        cases hnew
        exact .inr rfl
    · intro d hd
      refine hkept (d.time, ⟨d.key, d.hidden⟩) ?_
      rcases hd with hold | rfl
      · refine .inl ?_
        have hin := (hj.gone d).mp hold
        rw [← hremoved] at hin
        exact hin
      · exact .inr rfl
  refine ⟨_, ⟨?_, ?_, fun d => Iff.rfl, hlogged, ?_⟩, (refl now j).step
    (.leave (hj.admits hfind) hleft)⟩
  · rw [herased]
    exact hpresent
  · rw [hresult]
    exact hj.presentFrom.trans hfrom.symm
  · intro i info hinfo
    rw [herased, find?_erase] at hinfo
    split at hinfo
    · cases hinfo
    · rename_i hne
      rw [db_removeTxFromTransientLists, hdb i hne]
      exact hj.shown i info hinfo

end Pool
end Jero.TxPool
