import CanBinder.ChainUpdate
import CanBinder.Delivery
import CanBinder.SignalServer

/-!
# A chain of entries is a signal

What the memory holds from a slot on, read along its chain, is a signal
(`Dict.signalAt`), and `update_iviproperty` does to it what a frame does to a
signal: the pointers of the applied entry and the marked one are places in
the list of entries, and the reset before the decoding is what makes an
entry's value a function of the frame.

This holds where the chain is in order (`Dict.Orderly`), as it is for every
slot in use in every state of a run.
-/

/-! ## The last element with a property -/

section LastIdx

variable {α β : Type}

theorem lastIdx_map (q : β → Bool) (f : α → β) (l : List α) :
    lastIdx q (l.map f) = lastIdx (fun x => q (f x)) l := by
  induction l with
  | nil => rfl
  | cons x l ih => rw [List.map_cons, lastIdx, lastIdx, ih]

/-- **The place of the last element with a property**, among those that have
it. -/
theorem lastIdx_eq [DecidableEq α] {q : α → Bool} {l : List α} (hnd : l.Nodup) :
    lastIdx q l = (l.filter q).getLast?.map (fun x => l.idxOf x) := by
  induction l with
  | nil => rfl
  | cons x l ih =>
    obtain ⟨hx, hnd'⟩ := List.nodup_cons.mp hnd
    rw [lastIdx, ih hnd']
    cases hlast : (l.filter q).getLast? with
    | none =>
      rw [List.getLast?_eq_none_iff] at hlast
      rw [List.filter_cons, hlast]
      cases hq : q x
      · rfl
      · simp
    | some m =>
      have hm : m ∈ l := (List.mem_filter.mp (List.mem_of_getLast? hlast)).1
      have hne : x ≠ m := fun h => hx (h ▸ hm)
      have hfilter : ((x :: l).filter q).getLast? = some m := by
        rw [List.filter_cons]
        split_ifs
        · rw [List.getLast?_cons, hlast]
          rfl
        · exact hlast
      rw [hfilter, Option.map_some, Option.map_some, List.idxOf_cons_ne l hne]

end LastIdx

theorem PropDef.decoded_snd {p : PropDef} {canV64 : BitVec 64}
    (h : p.unreadable canV64 = false) : (p.decoded canV64).2 = p.content (p.raw canV64) :=
  congrArg Prod.snd (PropDef.decode_zero h)

namespace Entry

/-- Entries that can all take the frame have their values in it. -/
theorem receive_of_readable {canV64 : BitVec 64} {l : List Entry}
    (h : ∀ e ∈ l, e.unreadable canV64 = false) :
    receive canV64 l = l.map (fun e => e.store (e.decoded canV64).2) := by
  induction l with
  | nil => rfl
  | cons e l ih =>
    rw [receive, h e List.mem_cons_self, if_neg Bool.false_ne_true,
      ih (fun x hx => h x (List.mem_cons_of_mem e hx))]
    rfl

/-- The first entry that cannot take the frame ends the decoding. -/
theorem receive_of_unreadable {canV64 : BitVec 64} {pre post : List Entry} {e : Entry}
    (hpre : ∀ x ∈ pre, x.unreadable canV64 = false) (he : e.unreadable canV64 = true) :
    receive canV64 (pre ++ e :: post)
      = pre.map (fun x => x.store (x.decoded canV64).2)
        ++ (e :: post).map (fun x => x.store DataContent.zero) := by
  induction pre with
  | nil =>
    rw [List.nil_append, receive, if_pos he]
    rfl
  | cons x pre ih =>
    rw [List.cons_append, receive, hpre x List.mem_cons_self, if_neg Bool.false_ne_true,
      ih (fun y hy => hpre y (List.mem_cons_of_mem x hy))]
    rfl

end Entry

namespace Dict

/-- The entry at an address. -/
def entryAt (d : Dict) (a : Addr) : Entry := ⟨(d.mem a).toPropDef, (d.mem a).curValue⟩

/-- **The signal at an address.** -/
def signalAt (d : Dict) (a : Addr) : Signal where
  entries := (d.chain a).map d.entryAt
  nonempty := fun h => List.cons_ne_nil _ _ (List.map_eq_nil_iff.mp h)
  applied := (d.mem a).applyinfo.map (fun m => (d.chain a).idxOf m)
  updatetime := (d.mem a).updatetime

@[simp] theorem name_signalAt (d : Dict) (a : Addr) : (d.signalAt a).name = d.name a := rfl

/-- **A chain in order**: it ends, the entry applied is one of it, and its
other entries have none applied. -/
structure Orderly (d : Dict) (a : Addr) : Prop where
  chain : PtrChain.IsChain d.next (some a) (d.chain a)
  applied : ∀ m, (d.mem a).applyinfo = some m → m ∈ d.chain a
  unapplied : ∀ x ∈ d.chain a, x ≠ a → (d.mem x).applyinfo = none

/-- **The slots in use are in order** in every state of a run. -/
theorem Applies.orderly {d d' : Dict} (h : Applies d d') (hd : d.WF) (hp : d.Pristine)
    {c : CanId} (hc : c ∈ d'.canidRoot) {i : ℕ} (hi : i < (d'.info c).nData) :
    d'.Orderly (.slot c i) := by
  obtain ⟨l, hchain, hlist, hcells⟩ := (h.layout.wf hd).chain_slot hc hi
  have hap := fun x => h.applyinfo x
  simp only [fun x => (hp x).1, ← h.layout.chain_eq] at hap
  refine ⟨hlist ▸ hchain, fun m hm => ?_, fun x hx hne => ?_⟩
  · obtain hnone | ⟨-, m', hm', hsome⟩ := hap (.slot c i)
    · exact absurd (hm.symm.trans hnone) (Option.some_ne_none m)
    · rwa [Option.some.inj (hm.symm.trans hsome)]
  · rw [hlist] at hx
    obtain ⟨⟨k, rfl⟩, -⟩ := hcells x ((List.mem_cons.mp hx).resolve_left hne)
    exact (hap _).resolve_right (fun ⟨⟨_, _, hslot⟩, _⟩ => Addr.noConfusion hslot)

section Orderly

variable {d : Dict} {a : Addr}

/-- What a slot in order reports is the value of its signal. -/
theorem Orderly.value (h : d.Orderly a) : d.property2json a = (d.signalAt a).value := by
  have haux := property2jsonAux_eq
    (fun m hm hne => h.unapplied m (h.applied m hm) hne) d.ncell
  refine haux.trans ?_
  have hshown : (d.signalAt a).shown = d.entryAt (d.applied a) := by
    unfold Signal.shown Dict.applied
    cases hap : (d.mem a).applyinfo with
    | none =>
      have hsig : (d.signalAt a).applied = none := by rw [signalAt, hap]; rfl
      rw [hsig]
      rfl
    | some m =>
      have hm := h.applied m hap
      have hsig : (d.signalAt a).applied = some ((d.chain a).idxOf m) := by rw [signalAt, hap]; rfl
      rw [hsig]
      show ((d.chain a).map d.entryAt).getD ((d.chain a).idxOf m) _ = d.entryAt m
      rw [List.getD_eq_getElem?_getD, List.getElem?_map,
        List.getElem?_eq_getElem (List.idxOf_lt_length_of_mem hm), List.getElem_idxOf]
      rfl
  unfold Signal.value
  rw [hshown]
  exact report_congr rfl rfl

/-- The signal of a chain with one entry. -/
theorem Orderly.length_eq_one_iff (h : d.Orderly a) :
    (d.signalAt a).entries.length = 1 ↔ (d.mem a).next = none := by
  show ((d.chain a).map d.entryAt).length = 1 ↔ _
  rw [List.length_map]
  constructor
  · intro hlen
    obtain ⟨x, hx⟩ := List.length_eq_one_iff.mp hlen
    have hchain := h.chain
    rw [hx] at hchain
    obtain ⟨hax, hnext⟩ := hchain
    rw [Option.some.inj hax]
    exact hnext
  · intro hnext
    rw [chain_of_next_none hnext]
    rfl

/-- The signal after a change of values, along the chain there was. -/
theorem signalAt_eq {d' : Dict} (h : SameLayout d d') {s : Signal}
    (hentries : (d.chain a).map d'.entryAt = s.entries)
    (happlied : (d'.mem a).applyinfo.map (fun m => (d.chain a).idxOf m) = s.applied)
    (htime : (d'.mem a).updatetime = s.updatetime) : d'.signalAt a = s := by
  refine Signal.ext ?_ ?_ htime
  · show (d'.chain a).map d'.entryAt = s.entries
    rw [h.chain_eq]
    exact hentries
  · show (d'.mem a).applyinfo.map (fun m => (d'.chain a).idxOf m) = s.applied
    rw [h.chain_eq]
    exact happlied

/-- Storing into the first entry, with a time. -/
theorem Orderly.setHead (h : d.Orderly a) (c : DataContent) (t : Timeval) :
    (d.setBit a { d.mem a with curValue := c, updatetime := t }).signalAt a
      = { (d.signalAt a).setHead c with updatetime := t } := by
  have hsame : (d.mem a).SameEntry { d.mem a with curValue := c, updatetime := t } :=
    ⟨rfl, rfl, rfl⟩
  have hlayout := (touches_setBit hsame).sameLayout
  have hentry : ∀ x, x ≠ a →
      (d.setBit a { d.mem a with curValue := c, updatetime := t }).entryAt x = d.entryAt x :=
    fun x hx => by rw [entryAt, setBit_mem_of_ne d hx]; rfl
  have hself := setBit_mem_self d a { d.mem a with curValue := c, updatetime := t }
  obtain ⟨l, hl⟩ : ∃ l, d.chain a = a :: l := ⟨_, rfl⟩
  have hnd : (a :: l).Nodup := hl ▸ h.chain.nodup
  refine signalAt_eq hlayout ?_ ?_ ?_
  · show _ = (d.entryAt a).store c :: ((d.chain a).map d.entryAt).tail
    rw [hl, List.map_cons, List.map_cons, List.tail_cons, entryAt, hself]
    refine congrArg _ (List.map_congr_left (fun x hx => hentry x ?_))
    exact fun hxa => (List.nodup_cons.mp hnd).1 (hxa ▸ hx)
  · rw [hself]
    rfl
  · rw [hself]

/-- **A frame and a single entry.** -/
theorem Orderly.update_single (h : d.Orderly a) (hnext : (d.mem a).next = none)
    (canV64 : BitVec 64) (timestamp : Timeval) :
    let r := (d.signalAt a).receiveOne (d.info (d.mem a).mycanid).cycle canV64 timestamp
    (d.updateProperty canV64 a timestamp).1.signalAt a = r.1
      ∧ d.notifies canV64 a timestamp = r.2 := by
  have hdec : (d.signalAt a).head.decode (d.signalAt a).head.curValue
      ((d.signalAt a).head.raw canV64)
      = (d.mem a).decode (d.mem a).curValue ((d.mem a).raw canV64) := rfl
  have hdue : (d.signalAt a).due (d.info (d.mem a).mycanid).cycle timestamp
      = decide ((d.info (d.mem a).mycanid).cycle ≤ elapsMs (d.mem a).updatetime timestamp) := rfl
  have hstore : ∀ c, (d.setBit a { d.mem a with curValue := c }).signalAt a
      = (d.signalAt a).setHead c := fun c => h.setHead c (d.mem a).updatetime
  unfold notifies Signal.receiveOne
  rw [updateProperty_single hnext, hdec, hdue]
  obtain ⟨st, c⟩ := (d.mem a).decode (d.mem a).curValue ((d.mem a).raw canV64)
  cases st with
  | error => exact ⟨hstore c, rfl⟩
  | updated => exact ⟨h.setHead c timestamp, rfl⟩
  | noUpdated =>
    dsimp only
    by_cases hc : (d.info (d.mem a).mycanid).cycle ≤ elapsMs (d.mem a).updatetime timestamp
    · rw [if_pos hc, if_pos (decide_eq_true hc)]
      exact ⟨h.setHead c timestamp, rfl⟩
    · rw [if_neg hc, if_neg (by simpa using hc)]
      exact ⟨hstore c, rfl⟩

/-- **The place of the entry the decode loop marks.** -/
theorem Orderly.mark (h : d.Orderly a) (canV64 : BitVec 64) :
    lastIdx (fun e => e.active canV64) (d.signalAt a).entries
      = ((d.chain a).filter (fun x => (d.mem x).active canV64)).getLast?.map
          (fun x => (d.chain a).idxOf x) :=
  (lastIdx_map _ d.entryAt (d.chain a)).trans (lastIdx_eq h.chain.nodup)

/-- A frame that an entry cannot take is not for the signal. -/
theorem any_unreadable_iff (d : Dict) (a : Addr) (canV64 : BitVec 64) :
    (d.signalAt a).entries.any (fun e => e.unreadable canV64) = true
      ↔ ∃ x ∈ d.chain a, (d.mem x).unreadable canV64 = true := by
  show ((d.chain a).map d.entryAt).any _ = true ↔ _
  rw [List.any_map, List.any_eq_true]
  rfl

/-- The entries after some were given values. -/
theorem entryAt_storeAll (f : PropDef → DataContent) (l : List Addr) (d : Dict) (x : Addr) :
    (storeAll f l d).entryAt x
      = if x ∈ l then (d.entryAt x).store (f (d.mem x).toPropDef) else d.entryAt x := by
  unfold entryAt storeAll
  dsimp only
  split_ifs <;> rfl

/-- **A frame and a chain that cannot take it.** -/
theorem Orderly.update_unreadable (h : d.Orderly a) (hnext : (d.mem a).next.isSome = true)
    {canV64 : BitVec 64} (hun : ∃ x ∈ d.chain a, (d.mem x).unreadable canV64 = true)
    (timestamp : Timeval) :
    let r := (d.signalAt a).receiveChain (d.info (d.mem a).mycanid).cycle canV64 timestamp
    (d.updateProperty canV64 a timestamp).1.signalAt a = r.1
      ∧ d.notifies canV64 a timestamp = r.2 := by
  obtain ⟨pre, m, post, hchain, hread, hm⟩ := exists_first_unreadable hun
  have hnd : (pre ++ m :: post).Nodup := hchain ▸ h.chain.nodup
  have hlayout := (d.touches_updateProperty canV64 a timestamp).sameLayout
  have hupdate := updateProperty_of_unreadable hnext h.chain.nodup hchain hread hm timestamp
  have hrest : ∀ x ∈ m :: post, x ∉ pre := fun x hx hp =>
    (List.nodup_append.mp hnd).2.2 x hp x hx rfl
  have hpre : ∀ e ∈ pre.map d.entryAt, e.unreadable canV64 = false :=
    List.forall_mem_map.mpr hread
  have hm' : (d.entryAt m).unreadable canV64 = true := hm
  have hreceive : Entry.receive canV64
      (pre.map d.entryAt ++ d.entryAt m :: post.map d.entryAt) = _ :=
    Entry.receive_of_unreadable hpre hm'
  unfold notifies Signal.receiveChain
  rw [if_pos ((d.any_unreadable_iff a canV64).mpr hun)]
  rw [hupdate] at hlayout ⊢
  refine ⟨signalAt_eq hlayout ?_ ?_ ?_, rfl⟩
  · show _ = Entry.receive canV64 ((d.chain a).map d.entryAt)
    rw [hchain, List.map_append, List.map_append]
    refine Eq.trans ?_ hreceive.symm
    rw [← List.map_cons, List.map_map, List.map_map]
    refine congrArg₂ _ (List.map_congr_left (fun x hx => ?_))
      (List.map_congr_left (fun x hx => ?_))
    · rw [entryAt_storeAll, if_pos hx, entryAt_storeAll, if_pos (List.mem_append_left _ hx),
        storeAll_toPropDef]
      rfl
    · rw [entryAt_storeAll, if_neg (hrest x hx), entryAt_storeAll,
        if_pos (List.mem_append_right _ hx)]
      rfl
  · rw [storeAll_applyinfo, storeAll_applyinfo]
    rfl
  · rw [storeAll_updatetime, storeAll_updatetime]
    rfl

theorem readable_entries {canV64 : BitVec 64}
    (h : ∀ x ∈ d.chain a, (d.mem x).unreadable canV64 = false) :
    ∀ e ∈ (d.signalAt a).entries, e.unreadable canV64 = false :=
  List.forall_mem_map.mpr h

/-- **When a chain is to be shown**, in terms of its signal. -/
theorem Orderly.due_iff (h : d.Orderly a) {canV64 : BitVec 64}
    (hread : ∀ x ∈ d.chain a, (d.mem x).unreadable canV64 = false) (timestamp : Timeval) :
    ((d.signalAt a).changed canV64
        || (d.signalAt a).due (d.info (d.mem a).mycanid).cycle timestamp) = true
      ↔ d.Due canV64 a timestamp := by
  have hdue : (d.signalAt a).due (d.info (d.mem a).mycanid).cycle timestamp = true
      ↔ (d.info (d.mem a).mycanid).cycle ≤ elapsMs (d.mem a).updatetime timestamp :=
    decide_eq_true_iff
  rw [Bool.or_eq_true, hdue]
  refine or_congr_left ?_
  unfold Signal.changed
  rw [h.mark]
  have hlast := lastActive_iff hread
  cases hget : ((d.chain a).filter (fun x => (d.mem x).active canV64)).getLast? with
  | none =>
    refine iff_of_false Bool.false_ne_true (fun ⟨m, hm, _⟩ => ?_)
    exact absurd (hget.symm.trans ((hlast m).mpr hm)) (by simp)
  | some m =>
    have hm := (hlast m).mp hget
    have hin := hm.mem_chain
    have happlied : (d.signalAt a).applied = some ((d.chain a).idxOf m)
        ↔ (d.mem a).applyinfo = some m := by
      show (d.mem a).applyinfo.map _ = _ ↔ _
      cases hap : (d.mem a).applyinfo with
      | none => simp
      | some m' =>
        rw [Option.map_some, Option.some_inj, Option.some_inj, List.idxOf_inj (h.applied m' hap)]
    have hold : (d.signalAt a).entries[(d.chain a).idxOf m]? = some (d.entryAt m) := by
      show ((d.chain a).map d.entryAt)[_]? = _
      rw [List.getElem?_map, List.getElem?_idxOf hin]
      rfl
    have hnew : (Entry.receive canV64 (d.signalAt a).entries)[(d.chain a).idxOf m]?
        = some ((d.entryAt m).store ((d.mem m).content ((d.mem m).raw canV64))) := by
      rw [Entry.receive_of_readable (readable_entries hread), List.getElem?_map, hold,
        Option.map_some]
      exact congrArg (fun c => some ((d.entryAt m).store c)) (PropDef.decoded_snd (hread m hin))
    rw [Option.map_some]
    dsimp only
    rw [hold, hnew, Bool.or_eq_true, decide_eq_true_iff, decide_eq_true_iff, ne_eq,
      happlied]
    constructor
    · rintro (hne | hne)
      · exact ⟨m, hm, Or.inl hne⟩
      · exact ⟨m, hm, Or.inr (fun heq => hne (congrArg some heq))⟩
    · rintro ⟨m', hm', hcase⟩
      obtain rfl := Option.some.inj (hget.symm.trans ((hlast m').mpr hm'))
      exact hcase.imp_right (fun hne heq => hne (Option.some.inj heq))

/-- **A frame and a chain that can take it.** -/
theorem Orderly.update_readable (h : d.Orderly a) (hnext : (d.mem a).next.isSome = true)
    {canV64 : BitVec 64} (hread : ∀ x ∈ d.chain a, (d.mem x).unreadable canV64 = false)
    (timestamp : Timeval) :
    let r := (d.signalAt a).receiveChain (d.info (d.mem a).mycanid).cycle canV64 timestamp
    (d.updateProperty canV64 a timestamp).1.signalAt a = r.1
      ∧ d.notifies canV64 a timestamp = r.2 := by
  obtain ⟨hval, happly, hkeep, hnot, hstamp, hsame, -⟩ :=
    updateProperty_chain_spec hnext h.chain.nodup hread timestamp
  have htouch := d.touches_updateProperty canV64 a timestamp
  have hnone : (d.signalAt a).entries.any (fun e => e.unreadable canV64) = false := by
    rw [← Bool.not_eq_true, any_unreadable_iff]
    rintro ⟨x, hx, hun⟩
    exact Bool.false_ne_true ((hread x hx).symm.trans hun)
  have hentries : (d.chain a).map (d.updateProperty canV64 a timestamp).1.entryAt
      = Entry.receive canV64 (d.signalAt a).entries := by
    rw [Entry.receive_of_readable (readable_entries hread)]
    show _ = ((d.chain a).map d.entryAt).map _
    rw [List.map_map]
    refine List.map_congr_left (fun x hx => ?_)
    show (⟨_, _⟩ : Entry) = ⟨(d.mem x).toPropDef, ((d.mem x).decoded canV64).2⟩
    rw [hval x hx, (htouch.entry x).1, PropDef.decoded_snd (hread x hx)]
  have hlast := lastActive_iff hread
  have happlied : ((d.updateProperty canV64 a timestamp).1.mem a).applyinfo.map
        (fun m => (d.chain a).idxOf m)
      = (lastIdx (fun e => e.active canV64) (d.signalAt a).entries).or
          (d.signalAt a).applied := by
    rw [h.mark]
    cases hget : ((d.chain a).filter (fun x => (d.mem x).active canV64)).getLast? with
    | none =>
      rw [hkeep (fun m hm => by simp [(hlast m).mpr hm] at hget)]
      rfl
    | some m =>
      rw [happly m ((hlast m).mp hget)]
      rfl
  have hdue := h.due_iff hread timestamp
  unfold Signal.receiveChain
  rw [if_neg (by rw [hnone]; exact Bool.false_ne_true)]
  dsimp only
  by_cases hd : d.Due canV64 a timestamp
  · rw [if_pos (hdue.mpr hd)]
    exact ⟨signalAt_eq htouch.sameLayout hentries happlied (hstamp hd), hnot.mpr hd⟩
  · rw [if_neg (mt hdue.mp hd)]
    exact ⟨signalAt_eq htouch.sameLayout hentries happlied (hsame hd),
      Bool.eq_false_iff.mpr (mt hnot.mp hd)⟩

/-- **`update_iviproperty` is what a frame does to a signal.** -/
theorem Orderly.update (h : d.Orderly a) (canV64 : BitVec 64) (timestamp : Timeval) :
    let r := (d.signalAt a).receive (d.info (d.mem a).mycanid).cycle canV64 timestamp
    (d.updateProperty canV64 a timestamp).1.signalAt a = r.1
      ∧ d.notifies canV64 a timestamp = r.2 := by
  unfold Signal.receive
  cases hnext : (d.mem a).next with
  | none =>
    rw [if_pos (h.length_eq_one_iff.mpr hnext)]
    exact h.update_single hnext canV64 timestamp
  | some y =>
    have hsome : (d.mem a).next.isSome = true := by
      rw [hnext]
      rfl
    rw [if_neg (fun hlen => absurd (h.length_eq_one_iff.mp hlen) (by rw [hnext]; simp))]
    by_cases hun : ∃ x ∈ d.chain a, (d.mem x).unreadable canV64 = true
    · exact h.update_unreadable hsome hun timestamp
    · refine h.update_readable hsome (fun x hx => ?_) timestamp
      rw [← Bool.not_eq_true]
      exact fun hx' => hun ⟨x, hx, hx'⟩

end Orderly

end Dict
