import CanBinder.ServerDefinition
import CanBinder.Audiences

/-!
# The order of the CAN-IDs in a file

A JSON object is unordered, and so are the CAN-IDs of a file. The loader numbers
the timers and lists the names as it goes, so two files with the same CAN-IDs
may differ in that. They do in nothing else, where no two CAN-IDs use one name
and no two keys stand for one CAN-ID: apart from the numbers of the timers, the
runs have the same outputs, as long as nobody asks for `"*"`, as an
`unsubscribe` without an event does too (`Binder.order_independent`).
-/

/-! ## Without numbers and lists -/

/-- The channel with a timer that has no number. -/
def Channel.anonymous (ch : Channel) : Channel :=
  { ch with timer := ch.timer.map (fun _ => 0) }

/-- The output with a timer that has no number. -/
def Output.anonymous : Output → Output
  | .settime _ => .settime 0
  | o => o

/-- **The input does not ask for all names.** -/
def Input.Names : Input → Prop
  | .subscribe _ event _ => event ≠ some "*"
  | .unsubscribe _ args _ => ∀ names, Binder.unsubscribeNames args = some names → "*" ∉ names
  | _ => True

namespace Server

/-- **The server without the numbers of its timers** and without the list of its
names. -/
def anonymous (s : Server) : Server :=
  { s with channels := fun c => (s.channels c).anonymous, supported := [] }

theorem anonymous_setChannel (s : Server) (c : CanId) (ch : Channel) :
    (s.setChannel c ch).anonymous = s.anonymous.setChannel c ch.anonymous := by
  unfold setChannel anonymous
  dsimp only
  congr 1
  funext x
  by_cases hx : x = c
  · rw [hx, Function.update_self, Function.update_self]
  · rw [Function.update_of_ne hx, Function.update_of_ne hx]

/-- No output of a frame is about a timer. -/
theorem anonymous_receiveSignals (cycle : BitVec 32) (canV64 : BitVec 64) (timestamp : Timeval)
    (l : List Signal) (aud : Audience) :
    (receiveSignals cycle canV64 timestamp l aud).2.2.map Output.anonymous
      = (receiveSignals cycle canV64 timestamp l aud).2.2 := by
  have hpublish : ∀ (aud : Audience) name value, (aud.publish name value).2.map Output.anonymous
      = (aud.publish name value).2 := fun aud name value => by
    unfold Audience.publish
    split <;> rfl
  induction l generalizing aud with
  | nil => rfl
  | cons g l ih =>
    rw [receiveSignals]
    dsimp only
    rw [List.map_append, ih]
    split_ifs
    · rw [hpublish]
    · rfl

/-- A frame. -/
theorem anonymous_frame (s : Server) (f : CanFrame) (timestamp : Timeval) :
    s.anonymous.frame f timestamp
      = ((s.frame f timestamp).1.anonymous, (s.frame f timestamp).2.map Output.anonymous) := by
  by_cases hfor : ∃ c ∈ s.canids, Binder.IsFor c f
  · obtain ⟨c, hc, hfor⟩ := hfor
    by_cases hkind : (s.channels c).kind = .send
    · rw [frame_of_send hc hfor hkind, frame_of_send (s := s.anonymous) hc hfor hkind]
      dsimp only
      rw [anonymous_setChannel]
      rfl
    · rw [frame_of_receive hc hfor hkind, frame_of_receive (s := s.anonymous) hc hfor hkind]
      refine Prod.ext ?_ (anonymous_receiveSignals _ _ _ _ _).symm
      have hchannel := s.anonymous_setChannel c { s.channels c with
        frame := f
        signals := (receiveSignals (s.channels c).cycle (canvalue2host f.data) timestamp
          (s.channels c).signals s.audience).1 }
      exact congrArg (fun t : Server => { t with
        audience := (receiveSignals (s.channels c).cycle (canvalue2host f.data) timestamp
          (s.channels c).signals s.audience).2.1 }) hchannel.symm
  · rw [frame_of_not_isFor hfor, frame_of_not_isFor (s := s.anonymous) hfor]
    rfl

theorem anonymous_timer (s : Server) (c : CanId) : s.anonymous.timer c = s.timer c := by
  unfold timer
  have hsome : (s.anonymous.channels c).timer.isSome = (s.channels c).timer.isSome :=
    Option.isSome_map
  rw [hsome]
  rfl

/-- A value to send. -/
theorem anonymous_assign (s : Server) (c : CanId) (i : ℕ) (g : Signal) (v : BitVec 32) :
    s.anonymous.assign c i g v = ((s.assign c i g v).1.anonymous, (s.assign c i g v).2) := by
  unfold assign
  split_ifs
  · rfl
  · dsimp only
    rw [anonymous_setChannel]
    rfl

/-- The verb `set`: which timer it arms is out of view. -/
theorem anonymous_set (s : Server) (client : Client) (event value : Option String) :
    s.anonymous.set client event value
      = ((s.set client event value).1.anonymous,
        (s.set client event value).2.map Output.anonymous) := by
  unfold set
  cases event with
  | none => rfl
  | some name =>
    cases value with
    | none => rfl
    | some text =>
      have hlookup : s.anonymous.lookup name = s.lookup name := rfl
      dsimp only
      rw [hlookup]
      cases s.lookup name with
      | none => rfl
      | some p =>
        obtain ⟨c, i, g⟩ := p
        have hsend : (s.assign c i g (BitVec.ofInt 32 (CLib.strtol text 0))).2.map
            Output.anonymous = (s.assign c i g (BitVec.ofInt 32 (CLib.strtol text 0))).2 := by
          unfold assign send
          split_ifs <;> rfl
        have htimer : (s.anonymous.channels c).timer.toList.map Output.settime
            = ((s.channels c).timer.toList.map Output.settime).map Output.anonymous := by
          show ((s.channels c).timer.map _).toList.map Output.settime = _
          cases (s.channels c).timer <;> rfl
        dsimp only
        rw [anonymous_assign, List.map_append, List.map_append, hsend, htimer]
        rfl

/-- One named subscription. -/
theorem anonymous_subscribeOne (client : Client) (answers : DaemonAnswers)
    (s : Server) (apply : List (String × Json)) (name : String) :
    subscribeOne client answers (s.anonymous, apply) name
      = (((subscribeOne client answers (s, apply) name).1.1.anonymous,
          (subscribeOne client answers (s, apply) name).1.2),
        (subscribeOne client answers (s, apply) name).2) := by
  rw [subscribeOne_eq, subscribeOne_eq]
  rfl

theorem anonymous_subscribe (s : Server) {client : Client} {event : Option String}
    (hevent : event ≠ some "*") (answers : DaemonAnswers) :
    s.anonymous.subscribe client event answers
      = (s.subscribe client event answers).map (fun r =>
        (r.1.anonymous, r.2.map Output.anonymous)) := by
  unfold subscribe
  cases event with
  | none => rfl
  | some name =>
    have hname : ¬name = "*" := fun heq => hevent (congrArg some heq)
    have hone : ∀ t : Server × List (String × Json),
        subscribeSignal client answers Binder.callDepth t name
          = some (subscribeOne client answers t name) := fun t => if_neg hname
    dsimp only
    rw [hone, hone, anonymous_subscribeOne]
    dsimp only [Option.map_some]
    split_ifs <;> rfl

/-- Names to leave. -/
theorem anonymous_unsubscribeNames (client : Client) (answers : DaemonAnswers) {names : List String}
    (hnames : "*" ∉ names) (s : Server) (err : ℕ) :
    Binder.forAll (unsubscribeSignal client answers Binder.callDepth) names (s.anonymous, err)
      = (Binder.forAll (unsubscribeSignal client answers Binder.callDepth) names (s, err)).map
        (fun r => (r.1.anonymous, r.2)) := by
  induction names generalizing s err with
  | nil => rfl
  | cons name names ih =>
    obtain ⟨hname, hnames⟩ := not_or.mp (mt List.mem_cons.mpr hnames)
    have hone : ∀ t : Server, unsubscribeSignal client answers Binder.callDepth t name
        = some (unsubscribeOne client answers t name) := fun t => if_neg (Ne.symm hname)
    have hleave : unsubscribeOne client answers s.anonymous name
        = ((unsubscribeOne client answers s name).1.anonymous,
          (unsubscribeOne client answers s name).2) := by
      have haud : s.anonymous.audience = s.audience := rfl
      unfold unsubscribeOne
      rw [haud]
      split_ifs <;> rfl
    rw [Binder.forAll, Binder.forAll, hone, hone, hleave]
    exact ih hnames _ _

theorem anonymous_unsubscribe (s : Server) {client : Client} {args : Option Json}
    (hargs : ∀ names, Binder.unsubscribeNames args = some names → "*" ∉ names)
    (answers : DaemonAnswers) :
    s.anonymous.unsubscribe client args answers
      = (s.unsubscribe client args answers).map (fun r =>
        (r.1.anonymous, r.2.map Output.anonymous)) := by
  unfold unsubscribe
  cases hnames : Binder.unsubscribeNames args with
  | none => rfl
  | some names =>
    rw [Option.bind_some, Option.bind_some,
      anonymous_unsubscribeNames client answers (hargs names hnames), Option.map_map,
      Option.map_map]
    refine congrArg (fun f => Option.map f _) (funext (fun r => ?_))
    show (r.1.anonymous, _) = (r.1.anonymous, _)
    dsimp only
    split_ifs <;> rfl

/-- **One input.** -/
theorem anonymous_step (s : Server) {input : Input} (hinput : input.Names) :
    (s.step input).map (fun r => (r.1.anonymous, r.2.map Output.anonymous))
      = s.anonymous.step input := by
  cases input with
  | frame f timestamp => exact congrArg some (s.anonymous_frame f timestamp).symm
  | timer c sent =>
    show some (s.anonymous, (s.timer c).map Output.anonymous) = some (s.anonymous, _)
    rw [anonymous_timer]
    unfold timer send
    split_ifs <;> rfl
  | get client event =>
    have hget : (s.get client event).map Output.anonymous = s.get client event := by
      unfold get
      cases event with
      | none => rfl
      | some name =>
        dsimp only
        split
        · rfl
        · split <;> rfl
    exact congrArg (fun l => some (s.anonymous, l)) hget
  | set client event value sent => exact congrArg some (s.anonymous_set client event value).symm
  | list client => rfl
  | subscribe client event answers => exact (s.anonymous_subscribe hinput answers).symm
  | unsubscribe client args answers => exact (s.anonymous_unsubscribe hinput answers).symm

end Server

/-! ## CAN-IDs in any order -/

/-- The signals of an array depend on the names that are foreign to it. -/
theorem signalsOf_congr {foreign foreign' : String → Bool} {es : List PropDef}
    (h : ∀ e ∈ es, foreign e.name = foreign' e.name) :
    signalsOf foreign es = signalsOf foreign' es := by
  have hheads : ∀ (es : List PropDef) (seen : List String),
      (∀ e ∈ es, foreign e.name = foreign' e.name) →
        Dict.heads foreign seen es = Dict.heads foreign' seen es := by
    intro es
    induction es with
    | nil => exact fun _ _ => rfl
    | cons e es ih =>
      intro seen hes
      rw [Dict.heads, Dict.heads, hes e List.mem_cons_self,
        ih (e.name :: seen) (fun e' he' => hes e' (List.mem_cons_of_mem e he'))]
  unfold signalsOf
  rw [hheads es [] h]
  refine List.map_congr_left (fun e he => ?_)
  unfold Dict.group
  rw [h e (Dict.mem_of_mem_heads he)]

/-- The CAN-IDs before use none of the names. -/
theorem signalsOf_of_disjoint {cs pre post : List CanidDef} {c : CanidDef}
    (hdis : NamesDisjoint cs) (hcs : cs = pre ++ c :: post) :
    signalsOf (usesName pre) c.property = signalsOf (usesName []) c.property :=
  signalsOf_congr (fun _ he => hdis.usesName_eq_false hcs he)

section Order

variable {cs : List CanidDef}

theorem channelOf_of_mem (hdis : NamesDisjoint cs) {pre post : List CanidDef}
    (hcs : cs = pre ++ post) (hnodup : (post.map (fun c => c.info.canid)).Nodup) {c : CanidDef}
    (hc : c ∈ post) (timers : CanId → Option ℕ) :
    channelOf timers c.info.canid pre post = Channel.define [] c (timers c.info.canid) := by
  induction post generalizing pre with
  | nil => exact absurd hc List.not_mem_nil
  | cons c' post ih =>
    obtain ⟨hnew, hnodup⟩ := List.nodup_cons.mp hnodup
    rw [channelOf]
    rcases List.mem_cons.mp hc with rfl | hc
    · rw [if_pos rfl]
      unfold Channel.define
      rw [signalsOf_of_disjoint hdis hcs]
    · rw [if_neg (fun heq => hnew (List.mem_map.mpr ⟨c, hc, heq.symm⟩))]
      exact ih (by rw [hcs, List.append_assoc, List.singleton_append]) hnodup hc

theorem channelOf_of_notMem {x : CanId} {pre post : List CanidDef}
    (hx : ∀ c ∈ post, c.info.canid ≠ x) (timers : CanId → Option ℕ) :
    channelOf timers x pre post = Channel.undefined := by
  induction post generalizing pre with
  | nil => rfl
  | cons c post ih =>
    rw [channelOf, if_neg (hx c List.mem_cons_self)]
    exact ih (fun c' hc' => hx c' (List.mem_cons_of_mem c hc'))

theorem placeOf_of_mem (hdis : NamesDisjoint cs) {pre post : List CanidDef}
    (hcs : cs = pre ++ post) {c : CanidDef} (hc : c ∈ post) {e : PropDef} (he : e ∈ c.property) :
    placeOf e.name pre post
      = some (c.info.canid,
        (signalsOf (usesName []) c.property).findIdx (fun g => g.name = e.name)) := by
  induction post generalizing pre with
  | nil => exact absurd hc List.not_mem_nil
  | cons c' post ih =>
    rw [placeOf]
    rcases List.mem_cons.mp hc with rfl | hc
    · rw [if_pos (List.any_eq_true.mpr ⟨e, he, decide_eq_true rfl⟩),
        signalsOf_of_disjoint hdis hcs]
    · -- the name is that of a CAN-ID further on
      have hother : ¬c'.property.any (fun e' => e'.name = e.name) = true := by
        rw [hcs] at hdis
        rw [List.any_eq_true]
        rintro ⟨e', he', heq⟩
        exact (List.pairwise_cons.mp (List.pairwise_append.mp hdis).2.1).1 c hc e' he' e he
          (of_decide_eq_true heq)
      rw [if_neg hother]
      exact ih (by rw [hcs, List.append_assoc, List.singleton_append]) hc

theorem placeOf_of_notMem {n : String} {pre post : List CanidDef}
    (hn : ∀ c ∈ post, ∀ e ∈ c.property, e.name ≠ n) : placeOf n pre post = none := by
  induction post generalizing pre with
  | nil => rfl
  | cons c post ih =>
    have hother : ¬c.property.any (fun e => e.name = n) = true := by
      rw [List.any_eq_true]
      rintro ⟨e, he, heq⟩
      exact hn c List.mem_cons_self e he (of_decide_eq_true heq)
    rw [placeOf, if_neg hother]
    exact ih (fun c' hc' => hn c' (List.mem_cons_of_mem c hc'))

end Order

/-- **The CAN-IDs in another order** define the same server, but for the numbers
of the timers and the list of the names. -/
theorem Server.define_perm {s s' : Defined} (hperm : s.canids.Perm s'.canids)
    (htimed : ∀ x, x ∈ s.timed ↔ x ∈ s'.timed)
    (hnodup : (s.canids.map (fun c => c.info.canid)).Nodup) (hdis : NamesDisjoint s.canids) :
    (Server.define s).anonymous = (Server.define s').anonymous := by
  have hids := hperm.map (fun c => c.info.canid)
  have hdis' : NamesDisjoint s'.canids :=
    hperm.pairwise hdis (fun h e he e' he' heq => h e' he' e he heq.symm)
  have hcanids : (Server.define s).canids = (Server.define s').canids :=
    Dict.eq_sorted (Dict.ascending_sorted _) ((List.perm_insertionSort _ _).trans hids)
  have htimer : ∀ x, (s.timer x).map (fun _ => 0) = (s'.timer x).map (fun _ => 0) := fun x => by
    unfold Defined.timer
    by_cases hx : x ∈ s.timed
    · rw [if_pos hx, if_pos ((htimed x).mp hx)]
      rfl
    · rw [if_neg hx, if_neg (mt (htimed x).mpr hx)]
  have hchannels : ∀ x, ((Server.define s).channels x).anonymous
      = ((Server.define s').channels x).anonymous := fun x => by
    show (channelOf s.timer x [] s.canids).anonymous = (channelOf s'.timer x [] s'.canids).anonymous
    by_cases hx : ∃ c ∈ s.canids, c.info.canid = x
    · obtain ⟨c, hc, rfl⟩ := hx
      rw [channelOf_of_mem hdis rfl hnodup hc,
        channelOf_of_mem hdis' rfl (hids.nodup_iff.mp hnodup) (hperm.mem_iff.mp hc)]
      unfold Channel.anonymous Channel.define
      rw [htimer]
    · have hx' : ∀ c ∈ s.canids, c.info.canid ≠ x := fun c hc heq => hx ⟨c, hc, heq⟩
      rw [channelOf_of_notMem hx', channelOf_of_notMem (fun c hc => hx' c (hperm.mem_iff.mpr hc))]
  have hresolve : (Server.define s).resolve = (Server.define s').resolve := by
    funext n
    show placeOf n [] s.canids = placeOf n [] s'.canids
    by_cases hn : ∃ c ∈ s.canids, ∃ e ∈ c.property, e.name = n
    · obtain ⟨c, hc, e, he, rfl⟩ := hn
      rw [placeOf_of_mem hdis rfl hc he, placeOf_of_mem hdis' rfl (hperm.mem_iff.mp hc) he]
    · have hn' : ∀ c ∈ s.canids, ∀ e ∈ c.property, e.name ≠ n :=
        fun c hc e he heq => hn ⟨c, hc, e, he, heq⟩
      rw [placeOf_of_notMem hn', placeOf_of_notMem (fun c hc => hn' c (hperm.mem_iff.mpr hc))]
  unfold Server.anonymous
  rw [hcanids, funext hchannels, hresolve]
  rfl

/-! ## The entries of a file in any order -/

/-- The CAN-ID a key stands for. -/
def ConfigEntry.masked (x : ConfigEntry) : CanId := x.canid &&& CAN_SFF_MASK.setWidth 16

/-- What an entry defines by itself. -/
def ConfigEntry.alone (x : ConfigEntry) : Option Defined := definedStep ⟨[], []⟩ x

/-- One definition and another. -/
def Defined.and (s t : Defined) : Defined := ⟨s.canids ++ t.canids, s.timed ++ t.timed⟩

/-- An entry defines nothing but its CAN-ID. -/
theorem ConfigEntry.canid_alone {x : ConfigEntry} {t : Defined} (h : x.alone = some t) :
    ∀ c ∈ t.canids, c.info.canid = x.masked := by
  unfold ConfigEntry.alone definedStep at h
  split_ifs at h with hnone
  · cases h
    exact fun c hc => absurd hc List.not_mem_nil
  · split at h
    · split at h
      · cases h
      · rename_i r hr
        cases h
        exact fun c hc => List.mem_singleton.mp hc ▸ rfl
    · cases h
      exact fun c hc => absurd hc List.not_mem_nil

/-- The CAN-IDs are of eleven bits. -/
def Defined.Masked (s : Defined) : Prop :=
  ∀ c ∈ s.canids, c.info.canid &&& CAN_SFF_MASK.setWidth 16 = c.info.canid

/-- **An entry whose CAN-ID is not there yet** adds what it defines by itself. -/
theorem definedStep_of_fresh {s : Defined} (hmasked : s.Masked) {x : ConfigEntry}
    (hfresh : ∀ c ∈ s.canids, c.info.canid ≠ x.masked) :
    definedStep s x = x.alone.map s.and := by
  have hnone : ¬∃ c ∈ s.canids, c.info.canid = x.canid := fun ⟨c, hc, heq⟩ =>
    hfresh c hc ((hmasked c hc).symm.trans (heq ▸ rfl))
  have hempty : ∀ y : CanId, ¬∃ c ∈ ([] : List CanidDef), c.info.canid = y :=
    fun y ⟨c, hc, _⟩ => absurd hc List.not_mem_nil
  have hself : s.and ⟨[], []⟩ = s := by
    unfold Defined.and
    rw [List.append_nil, List.append_nil]
  unfold ConfigEntry.alone
  by_cases hdata : ∃ array, x.obj.objectGet "DATA" = .array array
  · obtain ⟨array, hdata⟩ := hdata
    cases hps : addPropertyMapping array x.kind with
    | none =>
      rw [Dict.definedStep_of_unreadable hnone hdata hps,
        Dict.definedStep_of_unreadable (hempty _) hdata hps]
      rfl
    | some r =>
      have hnew : ¬∃ c ∈ s.canids, c.info.canid = x.masked :=
        fun ⟨c, hc, heq⟩ => hfresh c hc heq
      have hid : ∀ h, (CanidDef.ofMapping x.canid x.obj x.kind r.1 h).info.canid = x.masked :=
        fun _ => rfl
      rw [Dict.definedStep_of_array hnone hdata hps,
        Dict.definedStep_of_array (hempty _) hdata hps]
      simp only [hid, if_neg hnew, if_neg (hempty _), Option.map_some]
      unfold Defined.and
      dsimp only
      split_ifs
      · rfl
      · rw [List.append_nil]
        rfl
  · have hnot : ∀ array, x.obj.objectGet "DATA" ≠ .array array :=
      fun array heq => hdata ⟨array, heq⟩
    rw [Dict.definedStep_of_not_array hnot, Dict.definedStep_of_not_array hnot, Option.map_some,
      hself]

/-- What some entries define, each by itself. -/
def definedBy (xs : List ConfigEntry) : Defined where
  canids := xs.flatMap (fun x => (x.alone.getD ⟨[], []⟩).canids)
  timed := xs.flatMap (fun x => (x.alone.getD ⟨[], []⟩).timed)

/-- **Entries of different CAN-IDs** define what each of them defines. -/
theorem definedLoop_eq {xs : List ConfigEntry} (hnodup : (xs.map ConfigEntry.masked).Nodup)
    {s : Defined} (hmasked : s.Masked)
    (hfresh : ∀ x ∈ xs, ∀ c ∈ s.canids, c.info.canid ≠ x.masked) :
    definedLoop xs s
      = if ∀ x ∈ xs, x.alone.isSome = true then some (s.and (definedBy xs)) else none := by
  induction xs generalizing s with
  | nil =>
    rw [definedLoop, if_pos (fun x hx => absurd hx List.not_mem_nil)]
    unfold Defined.and definedBy
    rw [List.flatMap_nil, List.flatMap_nil, List.append_nil, List.append_nil]
  | cons x xs ih =>
    obtain ⟨hx, hnodup⟩ := List.nodup_cons.mp hnodup
    rw [definedLoop, definedStep_of_fresh hmasked (hfresh x List.mem_cons_self)]
    cases hadd : x.alone with
    | none =>
      rw [if_neg]
      · rfl
      · intro h
        have := h x List.mem_cons_self
        rw [hadd] at this
        exact Bool.false_ne_true this
    | some t =>
      have hone : ∀ c ∈ t.canids, c.info.canid = x.masked := x.canid_alone hadd
      have hmasked' : (s.and t).Masked := List.forall_mem_append.mpr
        ⟨hmasked, fun c hc => by
          rw [hone c hc]
          unfold ConfigEntry.masked
          rw [BitVec.and_assoc, BitVec.and_self]⟩
      have hfresh' : ∀ y ∈ xs, ∀ c ∈ (s.and t).canids, c.info.canid ≠ y.masked := fun y hy =>
        List.forall_mem_append.mpr ⟨hfresh y (List.mem_cons_of_mem x hy), fun c hc heq =>
          hx (List.mem_map.mpr ⟨y, hy, heq.symm.trans (hone c hc)⟩)⟩
      have hiff : (∀ y ∈ x :: xs, y.alone.isSome = true) ↔ ∀ y ∈ xs, y.alone.isSome = true := by
        rw [List.forall_mem_cons, hadd]
        exact and_iff_right rfl
      have hand : (s.and t).and (definedBy xs) = s.and (definedBy (x :: xs)) := by
        unfold Defined.and definedBy
        rw [List.flatMap_cons, List.flatMap_cons, hadd, Option.getD_some, List.append_assoc,
          List.append_assoc]
      dsimp only [Option.map_some]
      rw [ih hnodup hmasked' hfresh', hand]
      exact if_congr hiff.symm rfl rfl

/-- A file defines a CAN-ID once. -/
theorem nodup_defined {jobj : Json} {s : Defined} (h : defined jobj = some s) :
    (s.canids.map (fun c => c.info.canid)).Nodup := by
  have hdrawn := Dict.drawn_canDefineInit jobj
  rw [h] at hdrawn
  generalize canDefineInit jobj = o at hdrawn
  cases hdrawn with
  | some hd => exact hd.configured.nodup

namespace Binder

/-- The outputs of the runs of a file, apart from the numbers of the timers. -/
theorem run_outputs (jobj : Json) {ins : List Input} (hins : ∀ e ∈ ins, e.Names) :
    (canDefineInit jobj).bind (fun d =>
        (run (start d) ins).map (fun r => r.2.map Output.anonymous))
      = ((defined jobj).map (fun s => (Server.define s).anonymous)).bind (fun t =>
        (Server.run t ins).map Prod.snd) := by
  have hstart : (defined jobj).map (fun s => (Server.define s).anonymous)
      = (canDefineInit jobj).map (fun d => (start d).server.anonymous) := by
    have hmap := congrArg (Option.map Server.anonymous) (map_server_start jobj)
    rw [Option.map_map, Option.map_map] at hmap
    exact hmap.symm
  rw [hstart, Option.bind_map]
  refine Option.bind_congr (fun d hload => ?_)
  have hserver := (follows_start (Dict.registered_of_canDefineInit hload).sound.pristine).server_run
    (Dict.registered_of_canDefineInit hload) ins
  have hview : ((start d).server.run ins).map (fun r => (r.1.anonymous, r.2.map Output.anonymous))
      = (start d).server.anonymous.run ins :=
    Machine.run_view Server.anonymous Output.anonymous (fun _ => True)
      (fun _ _ _ _ _ _ => trivial) (fun s _ _ he => s.anonymous_step he) trivial hins
  dsimp only [Function.comp_apply]
  rw [← hview, ← hserver, Option.map_map, Option.map_map]
  rfl

/-- **The order of a file does not matter**: two files with the same CAN-IDs, in
whichever order and on whichever side of each other the blocks stand, have the
same outputs for the same inputs, but for the numbers of the timers; and the
loader reads through a null pointer for both or for neither. -/
theorem order_independent {jobj jobj' : Json} {xs xs' : List ConfigEntry}
    (hxs : jobj.objectForeach.bind configEntries = some xs)
    (hxs' : jobj'.objectForeach.bind configEntries = some xs') (hperm : xs.Perm xs')
    (hnodup : (xs.map ConfigEntry.masked).Nodup)
    (hdis : ∀ s, defined jobj = some s → NamesDisjoint s.canids)
    {ins : List Input} (hins : ∀ e ∈ ins, e.Names) :
    (canDefineInit jobj).bind (fun d =>
        (run (start d) ins).map (fun r => r.2.map Output.anonymous))
      = (canDefineInit jobj').bind (fun d =>
        (run (start d) ins).map (fun r => r.2.map Output.anonymous)) := by
  rw [run_outputs jobj hins, run_outputs jobj' hins]
  refine congrArg (fun o : Option Server => o.bind (fun t => (Server.run t ins).map Prod.snd)) ?_
  have hdefined : ∀ {j : Json} {ys : List ConfigEntry},
      j.objectForeach.bind configEntries = some ys → (ys.map ConfigEntry.masked).Nodup →
        defined j = if ∀ x ∈ ys, x.alone.isSome = true then some (definedBy ys) else none := by
    intro j ys hys hn
    have hloop := definedLoop_eq hn (s := ⟨[], []⟩) (fun c hc => absurd hc List.not_mem_nil)
      (fun x hx c hc => absurd hc List.not_mem_nil)
    unfold defined
    rw [← Option.bind_assoc, hys]
    exact hloop
  have hids : (xs'.map ConfigEntry.masked).Nodup :=
    (hperm.map ConfigEntry.masked).nodup_iff.mp hnodup
  have hjobj := hdefined hxs hnodup
  have hall : (∀ x ∈ xs', x.alone.isSome = true) ↔ ∀ x ∈ xs, x.alone.isSome = true :=
    forall_congr' (fun x => imp_congr hperm.symm.mem_iff Iff.rfl)
  rw [hjobj, hdefined hxs' hids]
  by_cases hsome : ∀ x ∈ xs, x.alone.isSome = true
  · rw [if_pos hsome] at hjobj
    rw [if_pos hsome, if_pos (hall.mpr hsome), Option.map_some, Option.map_some]
    refine congrArg some (Server.define_perm (hperm.flatMap_right _)
      (fun x => (hperm.flatMap_right _).mem_iff) (nodup_defined hjobj) (hdis _ hjobj))
  · rw [if_neg hsome, if_neg (mt hall.mp hsome), Option.map_none]

/-- A lamp to send, under a key. -/
def lampMember (key name : String) : String × Json :=
  (key, configCanid "CAN_THINOUT_NON" 0 [configData name "bool" 1 0 1])

/-- Two lamps, whose timers have the numbers one and two, or two and one. -/
theorem order_independent_sample :
    (canDefineInit (configFile [] [lampMember "200" "left", lampMember "201" "right"])).bind
        (fun d => (run (start d) [.set 1 (some "right") (some "1") true]).map
          (fun r => r.2.map Output.anonymous))
      = (canDefineInit (configFile [] [lampMember "201" "right", lampMember "200" "left"])).bind
        (fun d => (run (start d) [.set 1 (some "right") (some "1") true]).map
          (fun r => r.2.map Output.anonymous)) := by
  have hfile : ∀ m m' : String × Json,
      (configFile [] [m, m']).objectForeach.bind configEntries
        = some [⟨.send, BitVec.ofInt 16 (CLib.strtol m.1 16), m.2⟩,
          ⟨.send, BitVec.ofInt 16 (CLib.strtol m'.1 16), m'.2⟩] := fun _ _ => rfl
  have hnames : (defined (configFile [] [lampMember "200" "left", lampMember "201" "right"])).map
      (fun s => decide (NamesDisjoint s.canids)) = some true := by
    decide
  refine order_independent (hfile _ _) (hfile _ _) (List.Perm.swap _ _ _) (by decide)
    (fun s hs => ?_) (fun e he => ?_)
  · rw [hs] at hnames
    exact of_decide_eq_true (Option.some.inj hnames)
  · rw [List.mem_singleton.mp he]
    trivial

end Binder
