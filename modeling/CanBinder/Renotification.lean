import CanBinder.ChainUpdate
import CanBinder.NotifyLaw
import CanBinder.ReportedChanges

/-!
# When an unchanged value is notified again

An unchanged value is to be notified again once the cycle of its CAN-ID is over.
`elaps_ms` cuts the milliseconds in between to an `unsigned int` before they are
compared with the cycle, so the comparison is right for up to `2 ^ 32` of them,
and otherwise where what is left of them is on the same side of the cycle
(`Timeval.KeepsCycle`). And some frames count as an update although they leave
the value as it is (`Dict.Recounts`).
-/

/-! ## A comparison cut to a word -/

/-- **An integer cut to a word is above a bound where the integer is**, exactly if
it is so where the cut changes it. -/
theorem BitVec.le_ofInt_iff_iff {w : ℕ} (c : BitVec w) (δ : ℤ) :
    (c ≤ BitVec.ofInt w δ ↔ (c.toNat : ℤ) ≤ δ)
      ↔ (δ < 0 → δ % 2 ^ w < c.toNat) ∧ (2 ^ w ≤ δ → (c.toNat : ℤ) ≤ δ % 2 ^ w) := by
  have hpow : ((2 ^ w : ℕ) : ℤ) = 2 ^ w := by
    push_cast
    rfl
  have hc : (c.toNat : ℤ) < 2 ^ w := by
    rw [← hpow]
    exact_mod_cast c.isLt
  have hpos : (0 : ℤ) < 2 ^ w := by omega
  have hsmall : 0 ≤ δ → δ < 2 ^ w → δ % 2 ^ w = δ := Int.emod_eq_of_lt
  have hnonneg := Int.emod_nonneg δ hpos.ne'
  rw [BitVec.le_def, BitVec.toNat_ofInt, hpow, ← Int.ofNat_le, Int.toNat_of_nonneg hnonneg]
  generalize (2 : ℤ) ^ w = y at hc hsmall ⊢
  generalize δ % y = m at hsmall ⊢
  omega

namespace Timeval

/-- **The cut milliseconds between two times are on the side of the cycle they
belong to.** -/
def KeepsCycle (cycle : BitVec 32) (old new : Timeval) : Prop :=
  (new.ms - old.ms < 0 → (new.ms - old.ms) % 2 ^ 32 < cycle.toNat)
    ∧ (2 ^ 32 ≤ new.ms - old.ms → (cycle.toNat : ℤ) ≤ (new.ms - old.ms) % 2 ^ 32)

end Timeval

/-- **The cycle is over by `elaps_ms`** just when it is, exactly for these
times. -/
theorem le_elapsMs_iff_iff {old new : Timeval} (hold : 0 ≤ old.tvUsec) (hnew : 0 ≤ new.tvUsec)
    (cycle : BitVec 32) :
    (cycle ≤ elapsMs old new ↔ (cycle.toNat : ℤ) ≤ new.ms - old.ms)
      ↔ Timeval.KeepsCycle cycle old new := by
  rw [elapsMs_eq hold hnew, BitVec.le_ofInt_iff_iff]
  rfl

/-! ## Values that stay as they are -/

/-- A value that is stored unchanged is reported as a change where it does not
compare as it is stored. -/
theorem CanBit.comparesAsStored_iff_of_same {p : CanBit} {v : BitVec 32} {s : UpdateStat}
    (h : updatePropertyValue p v = (s, p)) : p.ComparesAsStored v ↔ s ≠ .updated := by
  rw [← CanBit.reportsChange_iff]
  refine ⟨fun hrep hs => ?_, fun hs => CanBit.reportsChange_of_eq hs h⟩
  have hsame := hrep.only (by rw [h]; exact hs)
  rw [h] at hsame
  exact hsame rfl

namespace Dict

/-- **The frame leaves the value as it is**: it is decoded, and the entry the
property reports then holds what the one it reported before did. -/
structure Unchanged (d : Dict) (canV64 : BitVec 64) (a : Addr) (timestamp : Timeval) : Prop where
  decoded : (d.updateProperty canV64 a timestamp).2.isSome = true
  value : ((d.updateProperty canV64 a timestamp).1.mem
      ((d.updateProperty canV64 a timestamp).1.applied a)).curValue
    = (d.mem (d.applied a)).curValue

instance (d : Dict) (canV64 : BitVec 64) (a : Addr) (timestamp : Timeval) :
    Decidable (d.Unchanged canV64 a timestamp) :=
  decidable_of_iff (_ ∧ _) ⟨fun h => ⟨h.1, h.2⟩, fun h => ⟨h.decoded, h.value⟩⟩

/-- **A value counts as an update** though it may be the one there was: a single
entry does not compare as it is stored, or another entry of the chain is
applied than before. -/
def Recounts (d : Dict) (canV64 : BitVec 64) (a : Addr) : Prop :=
  match (d.mem a).next with
  | none => ¬(d.mem a).ComparesAsStored ((d.mem a).raw canV64)
  | some _ => ∃ m, d.LastActive canV64 a m ∧ (d.mem a).applyinfo ≠ some m

variable {d : Dict} {canV64 : BitVec 64} {a : Addr}

/-- **A single entry that keeps its value** is notified if it counts as an
update, or the cycle is over. -/
theorem Unchanged.notifies_single {timestamp : Timeval} (h : d.Unchanged canV64 a timestamp)
    (hnext : (d.mem a).next = none)
    (hap : ∀ m, (d.mem a).applyinfo = some m → m ∈ d.chain a) :
    d.notifies canV64 a timestamp = true
      ↔ ¬(d.mem a).ComparesAsStored ((d.mem a).raw canV64)
        ∨ (d.info (d.mem a).mycanid).cycle ≤ elapsMs (d.mem a).updatetime timestamp := by
  have hself := applied_of_next_none hnext hap
  have hself' : (d.updateProperty canV64 a timestamp).1.applied a = a := by
    unfold applied
    rcases (d.updateProperty_applyinfo canV64 a timestamp).2 with heq | ⟨m, hm, heq⟩
    · rw [heq]
      exact hself
    · rw [chain_of_next_none hnext, List.mem_singleton] at hm
      rw [heq, hm]
      rfl
  have hval := h.value
  rw [hself', hself, updateProperty_single_curValue hnext] at hval
  have hstore : updatePropertyValue (d.mem a) ((d.mem a).raw canV64)
      = (((d.mem a).decode (d.mem a).curValue ((d.mem a).raw canV64)).1, d.mem a) := by
    rw [updatePropertyValue_eq, hval]
  have hdecoded := h.decoded
  rw [CanBit.comparesAsStored_iff_of_same hstore, not_not]
  unfold notifies
  rw [updateProperty_single hnext] at hdecoded ⊢
  cases hdec : (d.mem a).decode (d.mem a).curValue ((d.mem a).raw canV64) with
  | mk s c =>
    rw [hdec] at hdecoded
    cases s with
    | error => cases hdecoded
    | updated => simp
    | noUpdated =>
      dsimp only
      split_ifs with hcycle
      · simp [hcycle]
      · simp [hcycle]

/-- **A chain that keeps its value** is notified if another entry is applied, or
the cycle is over. -/
theorem Unchanged.notifies_chain {timestamp : Timeval} (h : d.Unchanged canV64 a timestamp)
    (hnext : (d.mem a).next.isSome = true) (hnd : (d.chain a).Nodup) :
    d.notifies canV64 a timestamp = true
      ↔ (∃ m, d.LastActive canV64 a m ∧ (d.mem a).applyinfo ≠ some m)
        ∨ (d.info (d.mem a).mycanid).cycle ≤ elapsMs (d.mem a).updatetime timestamp := by
  have hread : ∀ x ∈ d.chain a, (d.mem x).unreadable canV64 = false := by
    intro x hx
    refine Bool.eq_false_iff.mpr (fun hun => ?_)
    obtain ⟨pre, m, post, hchain, hpre, hm⟩ := exists_first_unreadable ⟨x, hx, hun⟩
    have hdecoded := h.decoded
    rw [updateProperty_of_unreadable hnext hnd hchain hpre hm] at hdecoded
    cases hdecoded
  obtain ⟨hstored, happly, -, hnot, -⟩ := updateProperty_chain_spec hnext hnd hread timestamp
  rw [hnot]
  refine or_congr_left (exists_congr (fun m => and_congr_right (fun hm => ?_)))
  -- the entry applied before and after holds what it held
  refine or_iff_left_of_imp (fun hne hap => hne ?_)
  have hval := h.value
  have happlied : d.applied a = m := by
    unfold applied
    rw [hap]
    rfl
  have happlied' : (d.updateProperty canV64 a timestamp).1.applied a = m := by
    unfold applied
    rw [happly m hm]
    rfl
  rwa [happlied', happlied, hstored m hm.mem_chain] at hval

/-- **An unchanged value is notified** if it counts as an update, or the cycle is
over. -/
theorem Unchanged.notifies_iff {timestamp : Timeval} (h : d.Unchanged canV64 a timestamp)
    (hd : d.WF) (hap : AppliedInChain d) (ha : a ∈ d.propertyRoot) :
    d.notifies canV64 a timestamp = true
      ↔ d.Recounts canV64 a
        ∨ (d.info (d.mem a).mycanid).cycle ≤ elapsMs (d.mem a).updatetime timestamp := by
  unfold Recounts
  cases hnext : (d.mem a).next with
  | none => exact h.notifies_single hnext (hap a ha).1
  | some y => exact h.notifies_chain (by rw [hnext]; rfl) (hd.nodup_chain ha)

end Dict

/-- The microseconds say that the cycle is over where the milliseconds do, but
within the last millisecond of it. -/
theorem Timeval.le_us_iff (old new : Timeval) (cycle : ℤ) :
    cycle * 1000 ≤ new.us - old.us
      ↔ cycle ≤ new.ms - old.ms ∧ (new.ms - old.ms = cycle → cycle * 1000 ≤ new.us - old.us) := by
  unfold Timeval.ms
  omega

namespace Binder

/-- **An unchanged value is notified again** after its cycle. In any state of a
run of a loaded configuration, a property that keeps its value is notified at a
frame just when the milliseconds since its last update are at least the cycle,
exactly if the frame does not count as an update before that, and the times keep
the cycle. To the microsecond, the last millisecond has to be over too. -/
theorem renotified_iff {jobj : Json} {d : Dict} (hload : canDefineInit jobj = some d) {b : Binder}
    (h : Sane d b) {a : Addr} (ha : a ∈ d.propertyRoot) {canV64 : BitVec 64} {timestamp : Timeval}
    (hold : 0 ≤ (b.mem a).updatetime.tvUsec) (hnew : 0 ≤ timestamp.tvUsec)
    (hsame : b.Unchanged canV64 a timestamp) :
    let cycle := (d.info (d.mem a).mycanid).cycle
    let old := (b.mem a).updatetime
    ((b.notifies canV64 a timestamp = true ↔ (cycle.toNat : ℤ) ≤ timestamp.ms - old.ms)
        ↔ (b.Recounts canV64 a → (cycle.toNat : ℤ) ≤ timestamp.ms - old.ms)
          ∧ (¬b.Recounts canV64 a → Timeval.KeepsCycle cycle old timestamp))
      ∧ ((b.notifies canV64 a timestamp = true
          ↔ (cycle.toNat : ℤ) * 1000 ≤ timestamp.us - old.us)
        ↔ (b.Recounts canV64 a → (cycle.toNat : ℤ) * 1000 ≤ timestamp.us - old.us)
          ∧ (¬b.Recounts canV64 a → Timeval.KeepsCycle cycle old timestamp
            ∧ (timestamp.ms - old.ms = cycle.toNat →
              (cycle.toNat : ℤ) * 1000 ≤ timestamp.us - old.us))) := by
  intro cycle old
  obtain ⟨cs, -, hconf⟩ := Dict.configured_of_canDefineInit hload
  have hcycle : (b.info (b.mem a).mycanid).cycle = cycle := by
    rw [(h.layout.entry a).2.1]
    exact (h.layout.info_eq _).2.2.2.1
  have hnot := hsame.notifies_iff (h.layout.wf hconf.sound.wf) h.applied
    (h.layout.propertyRoot ▸ ha)
  have hkeeps := le_elapsMs_iff_iff hold hnew cycle
  have hus := Timeval.le_us_iff old timestamp cycle.toNat
  rw [hnot, hcycle]
  by_cases hre : b.Recounts canV64 a
  · simp [hre]
  · have hlt := cycle.isLt
    have hexact : timestamp.ms - old.ms = cycle.toNat → Timeval.KeepsCycle cycle old timestamp :=
      fun heq => ⟨fun hneg => by omega, fun hbig => by omega⟩
    simp only [hre, false_or, false_imp_iff, true_and, not_false_eq_true, forall_const]
    refine ⟨hkeeps, ?_⟩
    by_cases heq : timestamp.ms - old.ms = cycle.toNat
    · -- in the last millisecond, `elaps_ms` says that the cycle is over
      have hover := (hkeeps.mpr (hexact heq)).mpr heq.ge
      simp [hexact heq, hover, heq]
    · rw [hus]
      simpa [heq] using hkeeps

/-- A first frame, three and a half seconds after the initial zero. -/
theorem renotified_iff_sample :
    ∃ d, canDefineInit sampleConfig = some d
      ∧ ((start d).notifies 0#64 (.slot 0x100#16 0) ⟨3, 500000⟩ = true
        ↔ ((d.info (d.mem (.slot 0x100#16 0)).mycanid).cycle.toNat : ℤ)
          ≤ Timeval.ms ⟨3, 500000⟩ - ((start d).mem (.slot 0x100#16 0)).updatetime.ms) := by
  have hload : (canDefineInit sampleConfig).map (fun d =>
        ((d.propertyRoot, d.mem (.slot 0x100#16 0), (d.info 0x100#16).cycle),
          decide (d.Unchanged 0#64 (.slot 0x100#16 0) ⟨3, 500000⟩)))
      = some (([.slot 0x200#16 0, .slot 0x100#16 0],
          ⟨⟨"speed", .readonly, 2#8, 0#8, 16#8, .int16, none, 0⟩, 0x100#16, none, none, ⟨0, 0⟩,
            DataContent.zero⟩, 1000#32), true) := by
    decide
  obtain ⟨d, hd, hval⟩ := Option.map_eq_some_iff.mp hload
  simp only [Prod.mk.injEq] at hval
  obtain ⟨⟨hroot, hmem, hcycle⟩, hsame⟩ := hval
  obtain ⟨cs, -, hconf⟩ := Dict.configured_of_canDefineInit hd
  have hcompares : (d.mem (.slot 0x100#16 0)).ComparesAsStored
      ((d.mem (.slot 0x100#16 0)).raw 0#64) := by
    rw [hmem]
    exact Or.inr (fun h => by cases h)
  have hre : ¬(start d).Recounts 0#64 (.slot 0x100#16 0) := by
    unfold Dict.Recounts
    rw [show ((start d).mem (.slot 0x100#16 0)).next = none by
      rw [show (start d).mem = d.mem from rfl, hmem]]
    exact not_not.mpr hcompares
  refine ⟨d, hd, (renotified_iff hd (sane_start hconf.sound.pristine) (by rw [hroot]; decide)
    (by rw [show (start d).mem = d.mem from rfl, hmem]) (by decide)
    (of_decide_eq_true hsame)).1.mpr ⟨fun h => absurd h hre, fun _ => ?_⟩⟩
  rw [show (start d).mem = d.mem from rfl, hmem, hcycle]
  exact ⟨by decide, by decide⟩

/-- The same value again, a second before the last one by the clock. -/
theorem not_renotified_sample :
    ∃ d b outs, canDefineInit sampleConfig = some d
      ∧ run (start d) [.frame ⟨0x100#32, 8#8, fun _ => 1#8⟩ ⟨10, 0⟩] = some (b, outs)
      ∧ b.Unchanged (canvalue2host (fun _ => 1#8)) (.slot 0x100#16 0) ⟨9, 0⟩
      ∧ ¬(b.notifies (canvalue2host (fun _ => 1#8)) (.slot 0x100#16 0) ⟨9, 0⟩ = true
        ↔ ((d.info (d.mem (.slot 0x100#16 0)).mycanid).cycle.toNat : ℤ)
          ≤ Timeval.ms ⟨9, 0⟩ - (b.mem (.slot 0x100#16 0)).updatetime.ms) := by
  have hload : (canDefineInit sampleConfig).bind (fun d =>
      (run (start d) [.frame ⟨0x100#32, 8#8, fun _ => 1#8⟩ ⟨10, 0⟩]).map (fun r =>
        ((r.1.mem (.slot 0x100#16 0)).updatetime, (d.mem (.slot 0x100#16 0)).mycanid,
          (d.info 0x100#16).cycle,
          decide (r.1.Unchanged (canvalue2host (fun _ => 1#8)) (.slot 0x100#16 0) ⟨9, 0⟩),
          r.1.notifies (canvalue2host (fun _ => 1#8)) (.slot 0x100#16 0) ⟨9, 0⟩)))
      = some (⟨10, 0⟩, 0x100#16, 1000#32, true, true) := by
    decide
  obtain ⟨d, hd, hload⟩ := Option.bind_eq_some_iff.mp hload
  obtain ⟨⟨b, outs⟩, hrun, hval⟩ := Option.map_eq_some_iff.mp hload
  simp only [Prod.mk.injEq] at hval
  obtain ⟨htime, hcanid, hcycle, hsame, hnot⟩ := hval
  refine ⟨d, b, outs, hd, hrun, of_decide_eq_true hsame, ?_⟩
  rw [htime, hcanid, hcycle, hnot]
  decide

end Binder
