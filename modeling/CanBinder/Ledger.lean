import CanBinder.Configuration
import CanBinder.Membership

/-!
# Subscriptions and pushes over a run

The ledger of a run (`Binder.ledger`) records for every client and name
whether the client's subscription to the name succeeded and was not given up
since. The registry agrees with it in every state, whatever events were made
and dropped on the way, and what a client is pushed under a name follows from
it (`Binder.Delivers`): one push for each call of `notify_property_changed`
under the name while it is in the ledger, and none while it is not.
-/

namespace Binder

/-! ## Client lists -/

/-- **No client list names a client twice**, and no event is under `"*"`. -/
structure Rostered (b : Binder) : Prop where
  once : ∀ k, (b.clients k).Nodup
  star : b.topics "*" = none

theorem rostered_start (d : Dict) : (start d).Rostered := ⟨fun _ => List.nodup_nil, rfl⟩

/-- Only the events and their clients matter. -/
theorem Rostered.congr {b b' : Binder} (h : b.Rostered)
    (hroot : b'.bindEventRoot = b.bindEventRoot) (hclients : b'.clients = b.clients) :
    b'.Rostered := by
  refine ⟨hclients ▸ h.once, ?_⟩
  unfold topics getEvent
  rw [hroot, hclients]
  exact h.star

/-- Changing one client list. -/
theorem nodup_update {b : Binder} (h : ∀ k, (b.clients k).Nodup) (k : ℕ) {cl : List Client}
    (hcl : cl.Nodup) (k' : ℕ) : (Function.update b.clients k cl k').Nodup := by
  by_cases hk : k' = k
  · subst hk
    rwa [Function.update_self]
  · rw [Function.update_of_ne hk]
    exact h k'

theorem Rostered.removeEvent {b : Binder} (h : b.Rostered) (hev : b.EventsWF) (name : String) :
    (b.removeEvent name).1.Rostered := by
  refine ⟨?_, ?_⟩
  · unfold Binder.removeEvent
    split
    · exact h.once
    · exact nodup_update h.once _ List.nodup_nil
  · rw [hev.topics_removeEvent]
    by_cases hname : "*" = name
    · subst hname
      exact Function.update_self _ _ _
    · exact (Function.update_of_ne hname _ _).trans h.star

theorem Rostered.notify {b : Binder} (h : b.Rostered) (hev : b.EventsWF) (a : Addr) :
    (b.notifyPropertyChanged a).1.Rostered := by
  rcases hev.notify_cases a with ⟨-, heq⟩ | ⟨event, -, ⟨-, heq⟩ | ⟨-, heq⟩⟩
  · rw [heq]
    exact h
  · rw [heq]
    exact h
  · rw [heq]
    exact h.removeEvent hev _

theorem Rostered.subscribeOne {s : Binder × List (String × Json)} (h : s.1.Rostered)
    (hev : s.1.EventsWF) (client : Client) (answers : DaemonAnswers) {name : String}
    (hname : name ≠ "*") : (subscribeOne client answers s name).1.1.Rostered := by
  refine ⟨?_, ?_⟩
  · obtain ⟨b, apply⟩ := s
    rcases subscribeOne_cases client answers b apply name with heq | ⟨b', event, hfound, hcase⟩
    · rw [heq]
      exact h.once
    · have hb' : ∀ k, (b'.clients k).Nodup := by
        rcases hfound with ⟨rfl, -⟩ | ⟨-, hr⟩
        · exact h.once
        · obtain ⟨a, -, -, rfl⟩ := registerEvent_eq_some hr
          exact nodup_update h.once _ List.nodup_nil
      rcases hcase with heq | heq
      · rw [heq]
        exact hb'
      · rw [heq]
        refine nodup_update hb' _ ?_
        split_ifs with hcl
        · exact hb' _
        · exact List.nodup_append.mpr ⟨hb' _, List.nodup_singleton _, fun x hx y hy hxy => by
            rw [List.mem_singleton.mp hy] at hxy
            exact hcl (hxy ▸ hx)⟩
  · rcases hev.subscribeOne_spec client answers name with
      ⟨-, -, ht⟩ | ⟨-, -, ht | ⟨-, ht⟩⟩
    all_goals rw [ht]
    · exact (Function.update_of_ne hname.symm _ _).trans
        ((Function.update_of_ne hname.symm _ _).trans h.star)
    · exact h.star
    · exact (Function.update_of_ne hname.symm _ _).trans h.star

variable {d : Dict}

theorem Rostered.subscribeSignal {client : Client} {answers : DaemonAnswers} {depth : ℕ}
    {s s' : Binder × List (String × Json)} {name : String} {e : ℕ} (h : s.1.Rostered)
    (hb : Sane d s.1) (hs : subscribeSignal client answers depth s name = some (s', e)) :
    s'.1.Rostered := by
  exact (subscribeSignal_invariant (P := fun t => Sane d t.1 ∧ t.1.Rostered)
    (fun _ n hn ht => ⟨ht.1.subscribeOne client answers n,
      ht.2.subscribeOne ht.1.events client answers hn⟩) hs ⟨hb, h⟩).2

theorem Rostered.unsubscribeOne {b : Binder} (h : b.Rostered) (hev : b.EventsWF)
    (client : Client) (answers : DaemonAnswers) {name : String} (hname : name ≠ "*") :
    (unsubscribeOne client answers b name).1.Rostered := by
  rcases hev.unsubscribeOne_spec client answers name with ⟨-, -, ht⟩ | ⟨-, heq⟩
  · refine ⟨?_, ?_⟩
    · rcases unsubscribeOne_cases client answers b name with heq | ⟨event, -, heq⟩
      · rw [heq]
        exact h.once
      · rw [heq]
        exact nodup_update h.once _ ((h.once _).filter _)
    · rw [ht]
      exact (Function.update_of_ne (Ne.symm hname) _ _).trans h.star
  · rw [heq]
    exact h

/-! ## Verbs -/

/-- **The verb `subscribe`** with a name: the names it is for join if they are
admitted, and it succeeds if all are. -/
theorem Sane.subscribe_spec {b b' : Binder} {client : Client} {name : String}
    {answers : DaemonAnswers} {out : List Output} (h : Sane d b)
    (hs : b.subscribe client (some name) answers = some (b', out)) :
    ∃ b₁ apply e, Joined client answers b b₁ (requested d name) e
      ∧ (b.Rostered → b₁.Rostered)
      ∧ b' = b₁.socketcanUpdateFilter b₁.getSubscribedCanids
      ∧ out = [if e = 0 then .success client (some (.object apply)) else .fail client "error"] := by
  rcases subscribe_cases hs with ⟨hnone, -, -⟩ | ⟨n, b₁, apply, e, hn, heq, hb', hout⟩
  · cases hnone
  · cases hn
    exact ⟨b₁, apply, e, Sane.joined_subscribeSignal (s := (b, [])) h heq,
      fun hr => Rostered.subscribeSignal (s := (b, [])) hr h heq, hb', hout⟩

/-- The names an `unsubscribe` request is for. -/
def released (d : Dict) (args : Option Json) : List String :=
  ((unsubscribeNames args).getD []).flatMap (requested d)

/-- **The verb `unsubscribe`**. -/
theorem Sane.unsubscribe_spec {b b' : Binder} {client : Client} {args : Option Json}
    {answers : DaemonAnswers} {out : List Output} (h : Sane d b)
    (hs : b.unsubscribe client args answers = some (b', out)) :
    ∃ e, Left client answers b b' (released d args) e ∧ (b.Rostered → b'.Rostered)
      ∧ out = [if e = 0 then .success client none else .fail client "error"] := by
  obtain ⟨names, err, hnames, hall, hout⟩ := unsubscribe_eq_some hs
  obtain ⟨e, he, hleft⟩ := forAll_trans (P := fun t => Sane d t) (R := Left client answers)
    (requested d) Left.refl (fun _ _ _ _ _ _ _ h₁ h₂ => h₁.trans h₂)
    (fun t n t' e' ht hn => ⟨ht.unsubscribeSignal hn, ht.left_unsubscribeSignal hn⟩) hall h
  rw [Nat.zero_add] at he
  subst he
  unfold released
  rw [hnames]
  refine ⟨err, hleft, fun hr => ?_, hout⟩
  exact (unsubscribe_invariant (P := fun t => Sane d t ∧ t.Rostered)
    (fun _ n hn ht => ⟨ht.1.unsubscribeOne client answers n,
      ht.2.unsubscribeOne ht.1.events client answers hn⟩) hs ⟨h, hr⟩).2

/-- The receive filter has no part in the registry. -/
theorem topics_socketcanUpdateFilter (b : Binder) (canids : List (BitVec 32)) :
    (b.socketcanUpdateFilter canids).topics = b.topics := by
  obtain ⟨filter, hfilter⟩ := socketcanUpdateFilter_eq b canids
  rw [hfilter]
  rfl

theorem Rostered.socketcanUpdateFilter {b : Binder} (h : b.Rostered) (canids : List (BitVec 32)) :
    (b.socketcanUpdateFilter canids).Rostered := by
  obtain ⟨filter, hfilter⟩ := socketcanUpdateFilter_eq b canids
  rw [hfilter]
  exact h.congr rfl rfl

/-! ## Pushes -/

/-- How often an output is given to a client under a name. -/
def Output.copies (client : Client) (n : String) : Output → ℕ
  | .push n' _ clients => if n' = n then clients.count client else 0
  | _ => 0

/-- **How many pushes a client is given under a name.** -/
def deliveries (client : Client) (n : String) (out : List Output) : ℕ :=
  (out.map (Output.copies client n)).sum

theorem deliveries_append (client : Client) (n : String) (out out' : List Output) :
    deliveries client n (out ++ out') = deliveries client n out + deliveries client n out' := by
  unfold deliveries
  rw [List.map_append, List.sum_append]

/-- The names under which the decoding of an array calls
`notify_property_changed`, in order. -/
def notifyCalls (canV64 : BitVec 64) (c : CanId) (timestamp : Timeval) :
    List ℕ → Binder → List String
  | [], _ => []
  | i :: slots, b =>
    (if b.notifies canV64 (.slot c i) timestamp then [b.name (.slot c i)] else [])
      ++ notifyCalls canV64 c timestamp slots (b.updateIviproperty canV64 (.slot c i) timestamp).1

/-- **The names under which an input calls `notify_property_changed`.** Only
frames do. -/
def notified (b : Binder) : Input → List String
  | .frame frame timestamp =>
    match b.getCANIDDict ((frame.canId &&& CAN_SFF_MASK).setWidth 16) with
    | none => []
    | some c =>
      if 8#8 < frame.canDlc ∨ (b.info c).kind = .send then []
      else notifyCalls (canvalue2host frame.data) c timestamp (List.range (b.info c).nData)
        (b.keepFrame c frame)
  | _ => []

/-- **One notification is one push to each client of the name.** -/
theorem EventsWF.deliveries_notify {b : Binder} (h : b.EventsWF) (hr : b.Rostered) (a : Addr)
    (client : Client) (n : String) :
    deliveries client n (b.notifyPropertyChanged a).2
      = if b.Subscribed client n then [b.name a].count n else 0 := by
  have hremove : ∀ name, deliveries client n (b.removeEvent name).2 = 0 := fun name => by
    unfold Binder.removeEvent
    split <;> rfl
  rcases h.notify_cases a with ⟨hev, heq⟩ | ⟨event, hev, ⟨-, heq⟩ | ⟨hcl, heq⟩⟩
  · rw [heq]
    split_ifs with hsub
    · obtain ⟨event, hev', -⟩ := hsub
      have hne : b.name a ≠ n := fun hn => by
        rw [hn, hev'] at hev
        cases hev
      rw [List.count_singleton, if_neg (by simpa using hne)]
      rfl
    · rfl
  · rw [heq]
    show (if b.name a = n then (b.clients event.event.closure).count client else 0) + 0 = _
    rw [Nat.add_zero, List.count_singleton]
    by_cases hn : b.name a = n
    · have hsub : b.Subscribed client n ↔ client ∈ b.clients event.event.closure := by
        rw [← hn]
        unfold Subscribed
        rw [hev]
        simp
      have hbeq : (b.name a == n) = true := by simpa using hn
      rw [if_pos hn, if_pos hbeq]
      split_ifs with hc
      · exact List.count_eq_one_of_mem (hr.once _) (hsub.mp hc)
      · exact List.count_eq_zero_of_not_mem (fun hmem => hc (hsub.mpr hmem))
    · have hbeq : ¬(b.name a == n) = true := by simpa using hn
      rw [if_neg hn, if_neg hbeq, ite_self]
  · rw [heq]
    show (if b.name a = n then [].count client else 0) + deliveries client n _ = _
    rw [hremove, List.count_nil, ite_self]
    split_ifs with hsub
    · obtain ⟨event', hev', hmem⟩ := hsub
      have hne : b.name a ≠ n := fun hn => by
        rw [hn, hev'] at hev
        cases hev
        rw [hcl] at hmem
        exact List.not_mem_nil hmem
      rw [List.count_singleton, if_neg (by simpa using hne)]
    · rfl

/-- The update of an entry: its pushes, and nobody's subscription changed. -/
theorem Sane.deliveries_update {b : Binder} (hd : d.WF) (h : Sane d b) (hr : b.Rostered)
    (canV64 : BitVec 64) (c : CanId) (i : ℕ) (timestamp : Timeval) :
    (b.updateIviproperty canV64 (.slot c i) timestamp).1.Rostered
      ∧ ∀ client n,
        ((b.updateIviproperty canV64 (.slot c i) timestamp).1.Subscribed client n
          ↔ b.Subscribed client n)
        ∧ deliveries client n (b.updateIviproperty canV64 (.slot c i) timestamp).2.1
          = if b.Subscribed client n then
              (if b.notifies canV64 (.slot c i) timestamp then [b.name (.slot c i)] else []).count n
            else 0 := by
  have hdec := h.decodedInto hd canV64 c i timestamp
  have hr' : (b.decodedInto canV64 (.slot c i) timestamp).Rostered := hr.congr rfl rfl
  have hsub : ∀ client n, (b.decodedInto canV64 (.slot c i) timestamp).Subscribed client n
      ↔ b.Subscribed client n := fun _ _ => Iff.rfl
  have hname : (b.decodedInto canV64 (.slot c i) timestamp).name (.slot c i)
      = b.name (.slot c i) :=
    congrFun (b.toDict.touches_updateProperty canV64 (.slot c i) timestamp).sameLayout.name_eq _
  cases hn : b.notifies canV64 (.slot c i) timestamp with
  | false =>
    obtain ⟨hstate, hout⟩ := updateIviproperty_of_not_notifies hn
    rw [hstate, hout]
    refine ⟨hr', fun client n => ⟨hsub client n, ?_⟩⟩
    rw [if_neg Bool.false_ne_true, List.count_nil, ite_self]
    rfl
  | true =>
    obtain ⟨hstate, hout⟩ := updateIviproperty_of_notifies hn
    rw [hstate, hout]
    refine ⟨hr'.notify hdec.events _, fun client n => ⟨?_, ?_⟩⟩
    · rw [subscribed_iff_member, hdec.events.topics_notify, Topics.member_publish,
        ← subscribed_iff_member]
      exact hsub client n
    · rw [hdec.events.deliveries_notify hr', hname, if_pos rfl]
      exact if_congr (hsub client n) rfl rfl

/-- **The decoding of an array**: its pushes, and nobody's subscription
changed. -/
theorem Sane.deliveries_parseCandata {b : Binder} (hd : d.WF) (h : Sane d b) (hr : b.Rostered)
    (canV64 : BitVec 64) (c : CanId) (timestamp : Timeval) (slots : List ℕ) :
    (Binder.parseCandata canV64 c timestamp slots b).1.Rostered
      ∧ ∀ client n,
        ((Binder.parseCandata canV64 c timestamp slots b).1.Subscribed client n
          ↔ b.Subscribed client n)
        ∧ deliveries client n (Binder.parseCandata canV64 c timestamp slots b).2
          = if b.Subscribed client n then (notifyCalls canV64 c timestamp slots b).count n
            else 0 := by
  induction slots generalizing b with
  | nil =>
    exact ⟨hr, fun client n =>
      ⟨Iff.rfl, by simp [Binder.parseCandata, notifyCalls, deliveries]⟩⟩
  | cons i slots ih =>
    obtain ⟨hr₁, hone⟩ := h.deliveries_update hd hr canV64 c i timestamp
    obtain ⟨hr₂, hrest⟩ := ih (h.updateIviproperty hd canV64 c i timestamp) hr₁
    refine ⟨hr₂, fun client n => ⟨(hrest client n).1.trans (hone client n).1, ?_⟩⟩
    rw [parseCandata_cons]
    dsimp only
    rw [deliveries_append, (hone client n).2, (hrest client n).2, notifyCalls, List.count_append]
    simp only [(hone client n).1]
    split_ifs <;> rfl

/-- **One frame**: its pushes, and nobody's subscription changed. -/
theorem Sane.deliveries_parseFrame {b : Binder} (hd : d.WF) (h : Sane d b) (hr : b.Rostered)
    (frame : CanFrame) (timestamp : Timeval) :
    (b.parseFrame frame timestamp).1.Rostered
      ∧ ∀ client n,
        ((b.parseFrame frame timestamp).1.Subscribed client n ↔ b.Subscribed client n)
        ∧ deliveries client n (b.parseFrame frame timestamp).2.1
          = if b.Subscribed client n then (b.notified (.frame frame timestamp)).count n else 0 := by
  have hkeep : ∀ c, (b.keepFrame c frame).Rostered := fun c => hr.congr rfl rfl
  have hsub : ∀ c client n, (b.keepFrame c frame).Subscribed client n ↔ b.Subscribed client n :=
    fun _ _ _ => Iff.rfl
  unfold Binder.parseFrame notified
  dsimp only
  by_cases hdlc : 8#8 < frame.canDlc
  · rw [if_pos hdlc]
    refine ⟨hr, fun client n => ⟨Iff.rfl, ?_⟩⟩
    cases b.getCANIDDict ((frame.canId &&& CAN_SFF_MASK).setWidth 16) with
    | none => simp [deliveries]
    | some c => simp [deliveries, hdlc]
  · rw [if_neg hdlc]
    cases b.getCANIDDict ((frame.canId &&& CAN_SFF_MASK).setWidth 16) with
    | none => exact ⟨hr, fun client n => ⟨Iff.rfl, by simp [deliveries]⟩⟩
    | some c =>
      dsimp only
      rw [Dict.setInfo_info_self]
      by_cases hsend : (b.info c).kind = .send
      · rw [if_pos hsend, if_pos (Or.inr hsend)]
        exact ⟨hkeep c, fun client n => ⟨hsub c client n, by simp [deliveries]⟩⟩
      · rw [if_neg hsend, if_neg (not_or.mpr ⟨hdlc, hsend⟩)]
        obtain ⟨hr', hall⟩ := (h.setFrame c frame).deliveries_parseCandata hd (hkeep c)
          (canvalue2host frame.data) c timestamp (List.range (b.info c).nData)
        refine ⟨hr', fun client n => ⟨(hall client n).1.trans (hsub c client n), ?_⟩⟩
        exact (hall client n).2.trans (if_congr (hsub c client n) rfl rfl)

/-! ## The ledger -/

/-- **The request subscribes the client to the name**: it is a request of the
client that is for the name, and `subscribe_signal` succeeds for it. -/
def Grants (b : Binder) (client : Client) (n : String) : Input → Prop
  | .subscribe client' (some name) answers =>
    client' = client ∧ n ∈ requested b.toDict name ∧ (subscribeOne client answers (b, []) n).2 = 0
  | _ => False

/-- **The request takes the client out of the name.** -/
def Revokes (b : Binder) (client : Client) (n : String) : Input → Prop
  | .unsubscribe client' args answers =>
    client' = client ∧ n ∈ released b.toDict args ∧ (unsubscribeOne client answers b n).2 = 0
  | _ => False

/-- **The ledger of a run**: who is subscribed to what by the requests that
succeeded. Notifications have no part in it. -/
def ledger : Binder → List Input → (Client → String → Prop) → Client → String → Prop
  | _, [], held => held
  | b, input :: ins, held =>
    match b.step input with
    | none => held
    | some (b', _) => ledger b' ins (fun client n =>
        (held client n ∨ b.Grants client n input) ∧ ¬b.Revokes client n input)

theorem Sane.requested_eq {b : Binder} (h : Sane d b) (name : String) :
    requested b.toDict name = requested d name := by
  unfold requested Dict.getSupportPropertiesList
  rw [h.layout.supportPropertyList]

/-- A subscription succeeds where the daemon takes the client. -/
theorem EventsWF.subscribeOne_eq_zero_iff {b : Binder} (h : b.EventsWF) {client : Client}
    {answers : DaemonAnswers} {apply : List (String × Json)} {n : String} :
    (subscribeOne client answers (b, apply) n).2 = 0 ↔ b.Admits answers n := by
  have := (h.joined_subscribeOne (s := (b, apply)) client answers n).err
  simpa using this

/-- An unsubscription succeeds where the daemon lets the client go. -/
theorem EventsWF.unsubscribeOne_eq_zero_iff {b : Binder} (h : b.EventsWF) {client : Client}
    {answers : DaemonAnswers} {n : String} :
    (unsubscribeOne client answers b n).2 = 0 ↔ b.Releases answers n := by
  have := (h.left_unsubscribeOne client answers n).err
  simpa using this

/-- A request to send leaves the registry alone. -/
theorem set_registry (b : Binder) (client : Client) (event value : Option String) (sent : Bool) :
    (b.set client event value sent).1.bindEventRoot = b.bindEventRoot
      ∧ (b.set client event value sent).1.clients = b.clients := by
  obtain ⟨d, heq⟩ := set_eq b client event value sent
  rw [heq]
  exact ⟨rfl, rfl⟩

/-- A request to send pushes nothing. -/
theorem deliveries_set (b : Binder) (client : Client) (event value : Option String) (sent : Bool)
    (client' : Client) (n : String) :
    deliveries client' n (b.set client event value sent).2 = 0 := by
  have hsend : ∀ (b : Binder) frame, deliveries client' n (b.socketcanSend frame sent).1 = 0 :=
    fun b frame => by
      unfold socketcanSend
      split_ifs <;> rfl
  have htimer : ∀ (b : Binder) c, deliveries client' n (b.updateSendTimer c) = 0 := fun b c => by
    unfold updateSendTimer
    split <;> rfl
  rcases set_cases b client event value sent with ⟨status, heq⟩ | ⟨a, v, -, heq⟩
  · rw [heq]
    rfl
  · have hcan : deliveries client' n (b.canSignalSend a v sent).2 = 0 := by
      unfold canSignalSend
      dsimp only
      split_ifs
      · exact hsend _ _
      · rfl
    rw [heq, deliveries_append, deliveries_append, hcan, htimer]
    rfl

/-- **One input**: its pushes, and what it does to the ledger. -/
theorem Sane.ledger_step {b b' : Binder} {input : Input} {out : List Output} (hd : d.WF)
    (h : Sane d b) (hr : b.Rostered) (hs : b.step input = some (b', out)) :
    b'.Rostered ∧ ∀ client n,
      (b'.Subscribed client n
        ↔ (b.Subscribed client n ∨ b.Grants client n input) ∧ ¬b.Revokes client n input)
      ∧ deliveries client n out
        = if b.Subscribed client n then (b.notified input).count n else 0 := by
  cases input with
  | frame frame timestamp =>
    obtain ⟨hr', hall⟩ := h.deliveries_parseFrame hd hr frame timestamp
    cases hs
    exact ⟨hr', fun client n => ⟨(hall client n).1.trans (by simp [Grants, Revokes]),
      (hall client n).2⟩⟩
  | timer c sent =>
    cases hs
    refine ⟨hr, fun client n => ⟨by simp [Grants, Revokes], ?_⟩⟩
    unfold onTimerEvent socketcanSend
    split_ifs <;> rfl
  | get client event =>
    cases hs
    refine ⟨hr, fun client' n => ⟨by simp [Grants, Revokes], ?_⟩⟩
    unfold get
    dsimp only [notified]
    rw [List.count_nil, ite_self]
    split
    · rfl
    · split
      · rfl
      · split <;> rfl
  | set client event value sent =>
    obtain ⟨hroot, hclients⟩ := set_registry b client event value sent
    have hout := deliveries_set b client event value sent
    rw [step_set hs] at hroot hclients hout
    refine ⟨hr.congr hroot hclients, fun client' n => ⟨?_, ?_⟩⟩
    · unfold Subscribed getEvent
      rw [hroot, hclients]
      simp [Grants, Revokes]
    · rw [hout]
      simp [notified]
  | list client =>
    cases hs
    exact ⟨hr, fun client' n => ⟨by simp [Grants, Revokes], by simp [notified, list, deliveries,
      Output.copies]⟩⟩
  | subscribe client event answers =>
    cases event with
    | none =>
      cases hs
      exact ⟨hr, fun client' n => ⟨by simp [Grants, Revokes], by simp [notified, deliveries,
        Output.copies]⟩⟩
    | some name =>
      obtain ⟨b₁, apply, e, hj, hkeep, rfl, rfl⟩ := h.subscribe_spec hs
      refine ⟨(hkeep hr).socketcanUpdateFilter _, fun client' n => ⟨?_, ?_⟩⟩
      · rw [subscribed_iff_member, topics_socketcanUpdateFilter, ← subscribed_iff_member, hj.member]
        show _ ↔ (_ ∨ client = client' ∧ _ ∧ _) ∧ ¬False
        rw [h.requested_eq, h.events.subscribeOne_eq_zero_iff, eq_comm, and_iff_left not_false]
      · simp only [notified, List.count_nil, ite_self]
        split_ifs <;> rfl
  | unsubscribe client args answers =>
    obtain ⟨e, hleft, hkeep, rfl⟩ := h.unsubscribe_spec hs
    refine ⟨hkeep hr, fun client' n => ⟨?_, ?_⟩⟩
    · have hreleased : released b.toDict args = released d args := by
        unfold released
        rw [funext h.requested_eq]
      rw [hleft.member]
      show _ ↔ (_ ∨ False) ∧ ¬(client = client' ∧ _ ∧ _)
      rw [hreleased, h.events.unsubscribeOne_eq_zero_iff, or_false, eq_comm]
    · simp only [notified, List.count_nil, ite_self]
      split_ifs <;> rfl

/-- **The registry agrees with the ledger** after any inputs. -/
theorem Sane.ledger_run {b b' : Binder} {ins : List Input} {outs : List Output} (hd : d.WF)
    (h : Sane d b) (hr : b.Rostered) (hrun : run b ins = some (b', outs))
    {held : Client → String → Prop} (hheld : ∀ client n, b.Subscribed client n ↔ held client n) :
    Sane d b' ∧ b'.Rostered
      ∧ ∀ client n, b'.Subscribed client n ↔ ledger b ins held client n := by
  induction ins generalizing b outs held with
  | nil =>
    cases hrun
    exact ⟨h, hr, hheld⟩
  | cons input ins ih =>
    obtain ⟨b₁, out, out', hs, hrun', rfl⟩ := Machine.run_cons_eq_some.mp hrun
    obtain ⟨hr₁, hstep⟩ := h.ledger_step hd hr hs
    unfold ledger
    rw [hs]
    refine ih (h.step hd hs) hr₁ hrun' (fun client n => ?_)
    rw [(hstep client n).1, hheld]

/-- **The registry serves a ledger**: what every client is pushed, and what
it can ask for, is what the ledger says. -/
structure Delivers (held : Client → String → Prop) (b : Binder) : Prop where
  registry : ∀ client n, b.Subscribed client n ↔ held client n
  one_event : (b.bindEventRoot.map BindEvent.name).Nodup
  one_push : ∀ client n, held client n → ∀ input b' out, b.step input = some (b', out) →
    deliveries client n out = (b.notified input).count n
  no_push : ∀ client n, ¬held client n → ∀ input b' out, b.step input = some (b', out) →
    deliveries client n out = 0
  notified : ∀ a client n, (b.notifyPropertyChanged a).1.Subscribed client n ↔ held client n
  leaves : ∀ client n answers, held client n → answers.reqUnsubscribe n = true →
    ∃ b', b.unsubscribe client (some (.object [("event", .string n)])) answers
        = some (b', [.success client none])
      ∧ ¬b'.Subscribed client n
  joins : ∀ client n answers, n ≠ "*" → (b.getPropertyDict n).isSome →
    answers.makeEvent n = true → answers.reqSubscribe n = true →
    ∃ b' l, b.subscribe client (some n) answers = some (b', [.success client (some (.object l))])
      ∧ b'.Subscribed client n
  granted : ∀ client name answers b' l,
    b.subscribe client (some name) answers = some (b', [.success client l]) →
      ∀ n ∈ requested b.toDict name,
        b.Grants client n (.subscribe client (some name) answers)

/-- The verb `subscribe` answers if the recursion over the names ends. -/
theorem subscribe_of_ne_star (b : Binder) (client : Client) {n : String} (hn : n ≠ "*")
    (answers : DaemonAnswers) : ∃ b' out, b.subscribe client (some n) answers = some (b', out) := by
  unfold subscribe callDepth
  dsimp only
  rw [subscribeSignal, if_neg hn]
  dsimp only
  split_ifs <;> exact ⟨_, _, rfl⟩

/-- A name that resolves can be subscribed to, whether or not its event was
dropped before. -/
theorem Sane.joins {b : Binder} (h : Sane d b) (client : Client) {n : String} (hn : n ≠ "*")
    {answers : DaemonAnswers} (hres : (b.getPropertyDict n).isSome)
    (hmake : answers.makeEvent n = true) (hreq : answers.reqSubscribe n = true) :
    ∃ b' l, b.subscribe client (some n) answers = some (b', [.success client (some (.object l))])
      ∧ b'.Subscribed client n := by
  obtain ⟨b', out, hs⟩ := b.subscribe_of_ne_star client hn answers
  obtain ⟨b₁, apply, e, hj, -, rfl, rfl⟩ := h.subscribe_spec hs
  have hadmits : b.Admits answers n := ⟨hreq, Or.inr ⟨hres, hmake⟩⟩
  have hnames : requested d n = [n] := if_neg hn
  rw [hnames] at hj
  have he : e = 0 := hj.err.mpr (fun m hm => List.mem_singleton.mp hm ▸ hadmits)
  refine ⟨_, apply, by rw [hs, if_pos he], ?_⟩
  rw [subscribed_iff_member, topics_socketcanUpdateFilter, ← subscribed_iff_member, hj.member]
  exact Or.inr ⟨rfl, List.mem_singleton_self n, hadmits⟩

/-- A client that is subscribed can unsubscribe. -/
theorem Sane.leaves {b : Binder} (h : Sane d b) (hr : b.Rostered) {client : Client} {n : String}
    {answers : DaemonAnswers} (hsub : b.Subscribed client n)
    (hreq : answers.reqUnsubscribe n = true) :
    ∃ b', b.unsubscribe client (some (.object [("event", .string n)])) answers
        = some (b', [.success client none])
      ∧ ¬b'.Subscribed client n := by
  have hopen : (b.getEvent n).isSome := by
    obtain ⟨event, hev, -⟩ := hsub
    rw [hev]
    rfl
  have hn : n ≠ "*" := fun hn => by
    have hstar := hr.star
    rw [← isSome_topics, hn, hstar] at hopen
    exact Bool.false_ne_true hopen
  have hnames : unsubscribeNames (some (.object [("event", .string n)])) = some [n] := by
    simp [unsubscribeNames, Json.lookup, Json.getString]
  obtain ⟨b', out, hs⟩ : ∃ b' out,
      b.unsubscribe client (some (.object [("event", .string n)])) answers = some (b', out) := by
    unfold Binder.unsubscribe callDepth
    rw [hnames]
    dsimp only
    rw [forAll, Binder.unsubscribeSignal, if_neg hn]
    exact ⟨_, _, rfl⟩
  obtain ⟨e, hleft, -, rfl⟩ := h.unsubscribe_spec hs
  have hreleases : b.Releases answers n := ⟨hreq, hopen⟩
  have hreleased : released d (some (.object [("event", .string n)])) = [n] := by
    unfold released requested
    rw [hnames]
    simp [hn]
  rw [hreleased] at hleft
  have he : e = 0 := hleft.err.mpr (fun m hm => List.mem_singleton.mp hm ▸ hreleases)
  refine ⟨b', by rw [hs, if_pos he], fun hsub' => ?_⟩
  exact ((hleft.member client n).mp hsub').2 ⟨rfl, List.mem_singleton_self n, hreleases⟩

/-- **One push for each notification, to the subscribed clients and to nobody
else**: after any run, the registry serves the ledger of the run. -/
theorem pushed_to_subscribers {jobj : Json} {d : Dict} (hload : canDefineInit jobj = some d)
    {ins : List Input} {b : Binder} {outs : List Output}
    (hrun : run (start d) ins = some (b, outs)) :
    b.Delivers (ledger (start d) ins (fun _ _ => False)) := by
  obtain ⟨cs, -, hconf⟩ := Dict.configured_of_canDefineInit hload
  have hd := hconf.sound.wf
  have hnone : ∀ client n, (start d).Subscribed client n
      ↔ (fun _ _ => False : Client → String → Prop) client n := fun client n => by
    rw [subscribed_iff_member]
    exact iff_of_false Topics.not_member_empty not_false
  obtain ⟨hb, hr, hledger⟩ := (sane_start hconf.sound.pristine).ledger_run hd (rostered_start d)
    hrun hnone
  refine ⟨hledger, hb.events.tree.nodup_map, fun client n hheld input b' out hs => ?_,
    fun client n hheld input b' out hs => ?_, fun a client n => ?_,
    fun client n answers hheld hreq => hb.leaves hr ((hledger client n).mpr hheld) hreq,
    fun client n answers hn hres hmake hreq => hb.joins client hn hres hmake hreq,
    fun client name answers b' l hs n hn => ?_⟩
  · rw [((hb.ledger_step hd hr hs).2 client n).2, if_pos ((hledger client n).mpr hheld)]
  · rw [((hb.ledger_step hd hr hs).2 client n).2, if_neg (fun h => hheld ((hledger client n).mp h))]
  · rw [subscribed_iff_member, hb.events.topics_notify, Topics.member_publish,
      ← subscribed_iff_member, hledger]
  · obtain ⟨b₁, apply, e, hj, -, -, hout⟩ := hb.subscribe_spec hs
    have he : e = 0 := by
      by_contra he
      rw [if_neg he] at hout
      cases hout
    refine ⟨rfl, hn, hb.events.subscribeOne_eq_zero_iff.mpr (hj.err.mp he n ?_)⟩
    rwa [← hb.requested_eq]

/-- Two clients who come and go, and frames in between. -/
def comingsAndGoings : List Input :=
  [.subscribe 1 (some "speed") {}, .subscribe 2 (some "*") {},
    .unsubscribe 1 (some (.object [("event", .string "speed")])) {},
    .frame ⟨0x100#32, 8#8, fun _ => 1#8⟩ ⟨10, 0⟩, .unsubscribe 2 none {},
    .frame ⟨0x100#32, 8#8, fun _ => 2#8⟩ ⟨11, 0⟩]

/-- The first frame is pushed to the second client, and the other to nobody, so
the event is dropped. -/
theorem pushed_to_subscribers_sample :
    ∃ d b outs, canDefineInit sampleConfig = some d
      ∧ run (start d) comingsAndGoings = some (b, outs)
      ∧ deliveries 1 "speed" outs = 0 ∧ deliveries 2 "speed" outs = 1
      ∧ b.getEvent "speed" = none
      ∧ b.Delivers (ledger (start d) comingsAndGoings (fun _ _ => False)) := by
  have hload : (canDefineInit sampleConfig).bind (fun d => (run (start d) comingsAndGoings).map
      (fun r => (deliveries 1 "speed" r.2, deliveries 2 "speed" r.2, r.1.getEvent "speed")))
      = some (0, 1, none) := by
    decide
  obtain ⟨d, hd, hload⟩ := Option.bind_eq_some_iff.mp hload
  obtain ⟨⟨b, outs⟩, hr, hval⟩ := Option.map_eq_some_iff.mp hload
  simp only [Prod.mk.injEq] at hval
  obtain ⟨hfirst, hsecond, hdropped⟩ := hval
  exact ⟨d, b, outs, hd, hr, hfirst, hsecond, hdropped, pushed_to_subscribers hd hr⟩

end Binder
