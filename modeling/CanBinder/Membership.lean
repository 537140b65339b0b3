import CanBinder.Subscriptions
import CanBinder.Topics

/-!
# Who is subscribed

The registry of events and the daemon's client lists are a broker in the
sense of `Topics`: the topics are the names with an event, and the members of
a topic the clients of its event (`Binder.topics`). Registering an event
opens the topic, the daemon's calls join and leave it, and a notification
publishes.

From this it follows who is subscribed after any run (`Binder.ledger`): the
clients whose subscription to the name succeeded and who did not leave it
since. Each of them is given one push by every notification under the name,
and nobody else is given any.
-/

namespace Binder

/-- **The registry as topics.** -/
def topics (b : Binder) : Topics String Client :=
  fun n => (b.getEvent n).map (fun event => (b.clients event.event.closure).toFinset)

theorem isSome_topics (b : Binder) (n : String) :
    (b.topics n).isSome = (b.getEvent n).isSome := Option.isSome_map

/-- To be subscribed is to be a member. -/
theorem subscribed_iff_member {b : Binder} {client : Client} {n : String} :
    b.Subscribed client n ↔ b.topics.Member client n := by
  unfold Subscribed Topics.Member topics
  cases b.getEvent n <;> simp

instance (b : Binder) (client : Client) (n : String) : Decidable (b.Subscribed client n) :=
  match h : b.getEvent n with
  | none => isFalse (fun ⟨_, he, _⟩ => by rw [h] at he; cases he)
  | some event => decidable_of_iff (client ∈ b.clients event.event.closure) (by
      unfold Subscribed
      rw [h]
      simp)

theorem topics_of_some {b : Binder} {n : String} {event : BindEvent}
    (h : b.getEvent n = some event) :
    b.topics n = some (b.clients event.event.closure).toFinset := by
  rw [topics, h]
  rfl

theorem topics_of_none {b : Binder} {n : String} (h : b.getEvent n = none) :
    b.topics n = none := by
  rw [topics, h]
  rfl

/-- A topic is what it was where its event has the clients it had. -/
theorem topics_congr {b b' : Binder} {n : String} (hget : b'.getEvent n = b.getEvent n)
    (hclients : ∀ event, b.getEvent n = some event →
      b'.clients event.event.closure = b.clients event.event.closure) :
    b'.topics n = b.topics n := by
  cases hev : b.getEvent n with
  | none => rw [topics_of_none hev, topics_of_none (hget.trans hev)]
  | some event =>
    rw [topics_of_some hev, topics_of_some (hget.trans hev), hclients event hev]

/-- **Removing an event** closes its topic and no other. -/
theorem EventsWF.topics_removeEvent {b : Binder} (h : b.EventsWF) (name : String) :
    (b.removeEvent name).1.topics = Function.update b.topics name none := by
  unfold Binder.removeEvent
  cases hev : b.getEvent name with
  | none => exact (Function.update_eq_self_iff.mpr (topics_of_none hev).symm).symm
  | some event =>
    funext n
    have hget := SearchTree.tfind_tdelete h.tree name n
    by_cases hn : n = name
    · subst hn
      rw [if_pos rfl] at hget
      rw [Function.update_self]
      exact topics_of_none hget
    · rw [if_neg hn] at hget
      rw [Function.update_of_ne hn]
      exact topics_congr hget
        (fun event' hev' => Function.update_of_ne (h.handle_ne hev hev' hn) _ _)

/-- **A notification publishes** under the name of the entry. -/
theorem EventsWF.topics_notify {b : Binder} (h : b.EventsWF) (a : Addr) :
    (b.notifyPropertyChanged a).1.topics = b.topics.publish (b.name a) := by
  unfold Topics.publish
  rcases h.notify_cases a with ⟨hev, heq⟩ | ⟨event, hev, ⟨hcl, heq⟩ | ⟨hcl, heq⟩⟩
  · rw [heq, if_neg]
    rw [topics_of_none hev]
    simp
  · rw [heq, if_neg]
    rw [topics_of_some hev]
    simpa using hcl
  · rw [heq, if_pos, h.topics_removeEvent]
    rw [topics_of_some hev, hcl, List.toFinset_nil]

/-- **Registering an event** opens its topic. -/
theorem EventsWF.topics_registerEvent {b b' : Binder} (h : b.EventsWF) {answers : DaemonAnswers}
    {name : String} {event : BindEvent} (hnone : b.getEvent name = none)
    (hr : b.registerEvent answers name = some (b', event)) :
    b'.topics = b.topics.opened name := by
  have hev := (h.registerEvent hnone hr).2
  funext n
  unfold Topics.opened
  by_cases hn : n = name
  · obtain ⟨a, -, rfl, rfl⟩ := registerEvent_eq_some hr
    have hclients : (Function.update b.clients b.nextEvent []) b.nextEvent = [] :=
      Function.update_self ..
    rw [hn, Function.update_self, topics_of_none hnone, topics_of_some hev]
    exact congrArg (fun l => some l.toFinset) hclients
  · obtain ⟨hget, hclients⟩ := h.registerEvent_of_ne hnone hr hn
    rw [Function.update_of_ne hn]
    exact topics_congr hget hclients

/-- A change of the clients of one event. -/
theorem EventsWF.topics_update {b b' : Binder} (h : b.EventsWF) {name : String}
    {event : BindEvent} (hev : b.getEvent name = some event)
    (hroot : b'.bindEventRoot = b.bindEventRoot) {cl : List Client}
    (hcl : b'.clients = Function.update b.clients event.event.closure cl) :
    b'.topics = Function.update b.topics name (some cl.toFinset) := by
  have hget : ∀ n, b'.getEvent n = b.getEvent n := fun n => by
    unfold getEvent
    rw [hroot]
  funext n
  by_cases hn : n = name
  · rw [hn, Function.update_self, topics_of_some ((hget name).trans hev), hcl,
      Function.update_self]
  · rw [Function.update_of_ne hn]
    refine topics_congr (hget n) (fun event' hev' => ?_)
    rw [hcl, Function.update_of_ne (h.handle_ne hev hev' hn)]

/-- **The daemon takes a client**: it joins the topic. -/
theorem EventsWF.topics_afbReqSubscribe {b : Binder} (h : b.EventsWF) {name : String}
    {event : BindEvent} (hev : b.getEvent name = some event) (client : Client) :
    (b.afbReqSubscribe client event.event).topics = b.topics.join client name := by
  have hroot : (b.afbReqSubscribe client event.event).bindEventRoot = b.bindEventRoot := rfl
  refine (h.topics_update hev hroot rfl).trans (congrArg (Function.update b.topics name) ?_)
  rw [topics_of_some hev, Option.map_some]
  split_ifs with hcl
  · rw [Finset.insert_eq_of_mem (List.mem_toFinset.mpr hcl)]
  · congr 1
    ext c
    simp

/-- **The daemon lets a client go**: it leaves the topic. -/
theorem EventsWF.topics_afbReqUnsubscribe {b : Binder} (h : b.EventsWF) {name : String}
    {event : BindEvent} (hev : b.getEvent name = some event) (client : Client) :
    (b.afbReqUnsubscribe client event.event).topics = b.topics.leave client name := by
  have hroot : (b.afbReqUnsubscribe client event.event).bindEventRoot = b.bindEventRoot := rfl
  refine (h.topics_update hev hroot rfl).trans (congrArg (Function.update b.topics name) ?_)
  rw [topics_of_some hev, Option.map_some]
  congr 1
  ext c
  simp [and_comm]

/-! ## Named requests -/

/-- The daemon takes a client for a name: there is an event, or one can be
made. -/
def Admits (b : Binder) (answers : DaemonAnswers) (n : String) : Prop :=
  answers.reqSubscribe n = true
    ∧ ((b.getEvent n).isSome ∨ (b.getPropertyDict n).isSome ∧ answers.makeEvent n = true)

/-- The daemon lets a client go from a name: there is an event. -/
def Releases (b : Binder) (answers : DaemonAnswers) (n : String) : Prop :=
  answers.reqUnsubscribe n = true ∧ (b.getEvent n).isSome

theorem admits_iff {b : Binder} {answers : DaemonAnswers} {n : String} :
    b.Admits answers n ↔ answers.reqSubscribe n = true
      ∧ ((b.topics n).isSome ∨ (b.getPropertyDict n).isSome ∧ answers.makeEvent n = true) := by
  rw [isSome_topics]
  rfl

/-- **An event can be made** of a name that resolves, if the daemon makes
one. -/
theorem isSome_registerEvent (b : Binder) (answers : DaemonAnswers) (n : String) :
    (b.registerEvent answers n).isSome
      ↔ (b.getPropertyDict n).isSome ∧ answers.makeEvent n = true := by
  unfold registerEvent
  cases hp : b.getPropertyDict n with
  | none => simp
  | some a =>
    have hname : b.name a = n := SearchTree.key_of_tfind_eq_some hp
    dsimp only
    rw [hname]
    cases answers.makeEvent n <;> simp

/-- **One named subscription**: it succeeds if the daemon takes the client,
which then joins the topic; otherwise the topic may have been opened. -/
theorem EventsWF.subscribeOne_spec {s : Binder × List (String × Json)} (h : s.1.EventsWF)
    (client : Client) (answers : DaemonAnswers) (n : String) :
    (s.1.Admits answers n ∧ (subscribeOne client answers s n).2 = 0
        ∧ (subscribeOne client answers s n).1.1.topics = (s.1.topics.opened n).join client n)
      ∨ (¬s.1.Admits answers n ∧ (subscribeOne client answers s n).2 = 1
        ∧ ((subscribeOne client answers s n).1.1.topics = s.1.topics
          ∨ answers.reqSubscribe n = false
            ∧ (subscribeOne client answers s n).1.1.topics = s.1.topics.opened n)) := by
  obtain ⟨b, apply⟩ := s
  have hadmits : b.Admits answers n ↔ answers.reqSubscribe n = true
      ∧ ((b.getEvent n).isSome ∨ (b.registerEvent answers n).isSome) := by
    rw [isSome_registerEvent]
    rfl
  dsimp only at h ⊢
  rw [hadmits]
  unfold subscribeOne
  dsimp only
  cases hev : b.getEvent n with
  | some event =>
    -- opening a topic that is open does nothing
    have hopened : b.topics.opened n = b.topics := by
      rw [Topics.opened, topics_of_some hev]
      exact Function.update_eq_self_iff.mpr (topics_of_some hev).symm
    cases hsub : answers.reqSubscribe n with
    | false => exact Or.inr ⟨by simp, rfl, Or.inl rfl⟩
    | true =>
      refine Or.inl ⟨by simp, rfl, ?_⟩
      rw [hopened]
      exact h.topics_afbReqSubscribe hev client
  | none =>
    dsimp only
    cases hr : b.registerEvent answers n with
    | none => exact Or.inr ⟨by simp, rfl, Or.inl rfl⟩
    | some r =>
      obtain ⟨b', event⟩ := r
      have hopened := h.topics_registerEvent hev hr
      obtain ⟨hwf, hev'⟩ := h.registerEvent hev hr
      cases hsub : answers.reqSubscribe n with
      | false => exact Or.inr ⟨by simp, rfl, Or.inr ⟨rfl, hopened⟩⟩
      | true =>
        refine Or.inl ⟨by simp, rfl, ?_⟩
        rw [← hopened]
        exact hwf.topics_afbReqSubscribe hev' client

/-- **One named unsubscription.** -/
theorem EventsWF.unsubscribeOne_spec {b : Binder} (h : b.EventsWF) (client : Client)
    (answers : DaemonAnswers) (n : String) :
    (b.Releases answers n ∧ (unsubscribeOne client answers b n).2 = 0
        ∧ (unsubscribeOne client answers b n).1.topics = b.topics.leave client n)
      ∨ (¬b.Releases answers n ∧ unsubscribeOne client answers b n = (b, 1)) := by
  unfold Releases unsubscribeOne
  cases hev : b.getEvent n with
  | none => exact Or.inr ⟨by simp, rfl⟩
  | some event =>
    dsimp only
    cases answers.reqUnsubscribe n with
    | false => exact Or.inr ⟨by simp, rfl⟩
    | true => exact Or.inl ⟨by simp, rfl, h.topics_afbReqUnsubscribe hev client⟩

/-! ## Loops over names -/

/-- **A loop over names** adds up what its turns do, where each turn stands
for a list of names. -/
theorem forAll_trans {σ : Type} {P : σ → Prop} {R : σ → σ → List String → ℕ → Prop}
    (expand : String → List String) {signal : σ → String → Option (σ × ℕ)}
    (hrefl : ∀ s, R s s [] 0)
    (htrans : ∀ s s₁ s₂ l l' e e', R s s₁ l e → R s₁ s₂ l' e' → R s s₂ (l ++ l') (e + e'))
    (hsig : ∀ s n s' e, P s → signal s n = some (s', e) → P s' ∧ R s s' (expand n) e)
    {names : List String} {s s' : σ} {err err' : ℕ}
    (h : forAll signal names (s, err) = some (s', err')) (hs : P s) :
    ∃ e, err' = err + e ∧ R s s' (names.flatMap expand) e := by
  induction names generalizing s err with
  | nil =>
    cases h
    exact ⟨0, rfl, hrefl _⟩
  | cons n names ih =>
    rw [forAll] at h
    split at h
    · cases h
    · rename_i s₁ e₁ heq
      obtain ⟨hs₁, hR₁⟩ := hsig s n s₁ e₁ hs heq
      obtain ⟨e, rfl, hR⟩ := ih h hs₁
      exact ⟨e₁ + e, Nat.add_assoc _ _ _, htrans _ _ _ _ _ _ _ hR₁ hR⟩

/-- The names a request for one name is for. -/
def requested (d : Dict) (name : String) : List String :=
  if name = "*" then d.getSupportPropertiesList else [name]

/-- What `"*"` stands for is what it stands for, even where a property has
that name. -/
theorem mem_flatMap_requested {d : Dict} {n : String} :
    n ∈ d.getSupportPropertiesList.flatMap (requested d) ↔ n ∈ requested d "*" := by
  show _ ↔ n ∈ d.getSupportPropertiesList
  rw [List.mem_flatMap]
  constructor
  · rintro ⟨m, hm, hn⟩
    unfold requested at hn
    split_ifs at hn
    · exact hn
    · rwa [List.mem_singleton.mp hn]
  · intro hn
    refine ⟨n, hn, ?_⟩
    unfold requested
    split_ifs
    · exact hn
    · exact List.mem_singleton_self n

/-- **A client was subscribed to those of a list of names that admit it**, and
the others were counted as errors. -/
structure Joined (client : Client) (answers : DaemonAnswers) (b b' : Binder)
    (names : List String) (err : ℕ) : Prop where
  member : ∀ c n, b'.Subscribed c n
    ↔ b.Subscribed c n ∨ c = client ∧ n ∈ names ∧ b.Admits answers n
  admits : ∀ n, b'.Admits answers n ↔ b.Admits answers n
  err : err = 0 ↔ ∀ n ∈ names, b.Admits answers n

/-- **A client was taken out of those of a list of names that release it**. -/
structure Left (client : Client) (answers : DaemonAnswers) (b b' : Binder)
    (names : List String) (err : ℕ) : Prop where
  member : ∀ c n, b'.Subscribed c n
    ↔ b.Subscribed c n ∧ ¬(c = client ∧ n ∈ names ∧ b.Releases answers n)
  releases : ∀ n, b'.Releases answers n ↔ b.Releases answers n
  err : err = 0 ↔ ∀ n ∈ names, b.Releases answers n

section Loops

variable {d : Dict} {client : Client} {answers : DaemonAnswers} {b b₁ b₂ : Binder}
  {names names' : List String} {err err' : ℕ}

theorem Joined.refl (b : Binder) : Joined client answers b b [] 0 :=
  ⟨fun _ _ => by simp, fun _ => Iff.rfl, by simp⟩

theorem Joined.trans (h : Joined client answers b b₁ names err)
    (h' : Joined client answers b₁ b₂ names' err') :
    Joined client answers b b₂ (names ++ names') (err + err') := by
  refine ⟨fun c n => ?_, fun n => (h'.admits n).trans (h.admits n), ?_⟩
  · rw [h'.member, h.member, h.admits, List.mem_append]
    tauto
  · rw [Nat.add_eq_zero_iff, h.err, h'.err]
    simp only [h.admits, List.mem_append, or_imp, forall_and]

theorem Joined.congr (h : Joined client answers b b₁ names err)
    (hnames : ∀ n, n ∈ names ↔ n ∈ names') : Joined client answers b b₁ names' err := by
  refine ⟨fun c n => ?_, h.admits, ?_⟩
  · rw [h.member, hnames]
  · rw [h.err]
    exact forall_congr' (fun n => imp_congr_left (hnames n))

theorem Left.refl (b : Binder) : Left client answers b b [] 0 :=
  ⟨fun _ _ => by simp, fun _ => Iff.rfl, by simp⟩

theorem Left.trans (h : Left client answers b b₁ names err)
    (h' : Left client answers b₁ b₂ names' err') :
    Left client answers b b₂ (names ++ names') (err + err') := by
  refine ⟨fun c n => ?_, fun n => (h'.releases n).trans (h.releases n), ?_⟩
  · rw [h'.member, h.member, h.releases, List.mem_append]
    tauto
  · rw [Nat.add_eq_zero_iff, h.err, h'.err]
    simp only [h.releases, List.mem_append, or_imp, forall_and]

theorem Left.congr (h : Left client answers b b₁ names err)
    (hnames : ∀ n, n ∈ names ↔ n ∈ names') : Left client answers b b₁ names' err := by
  refine ⟨fun c n => ?_, h.releases, ?_⟩
  · rw [h.member, hnames]
  · rw [h.err]
    exact forall_congr' (fun n => imp_congr_left (hnames n))

/-- One named subscription. -/
theorem EventsWF.joined_subscribeOne {s : Binder × List (String × Json)} (h : s.1.EventsWF)
    (client : Client) (answers : DaemonAnswers) (n : String) :
    Joined client answers s.1 (subscribeOne client answers s n).1.1 [n]
      (subscribeOne client answers s n).2 := by
  have hdict : ∀ m, (subscribeOne client answers s n).1.1.getPropertyDict m
      = s.1.getPropertyDict m := fun m =>
    congrArg (fun d => Dict.getPropertyDict d m) (subscribeOne_toDict client answers s n)
  rcases h.subscribeOne_spec client answers n with
    ⟨had, herr, ht⟩ | ⟨had, herr, ht | ⟨hreq, ht⟩⟩
  · refine ⟨fun c m => ?_, fun m => ?_, ?_⟩
    · rw [subscribed_iff_member, subscribed_iff_member, ht, Topics.member_join,
        Topics.member_opened, List.mem_singleton]
      refine or_congr_right (and_congr_right (fun _ => and_congr_right (fun hm => ?_)))
      subst hm
      simp only [Topics.isSome_opened, had]
      simp
    · rw [admits_iff, admits_iff, ht, Topics.isSome_join, Topics.isSome_opened, hdict]
      by_cases hm : m = n
      · subst hm
        rw [admits_iff] at had
        simp [had]
      · simp [hm]
    · simp [herr, had]
  · refine ⟨fun c m => ?_, fun m => ?_, by simp [herr, had]⟩
    · rw [subscribed_iff_member, subscribed_iff_member, ht, List.mem_singleton]
      refine (or_iff_left ?_).symm
      rintro ⟨-, rfl, hm⟩
      exact had hm
    · rw [admits_iff, admits_iff, ht, hdict]
  · refine ⟨fun c m => ?_, fun m => ?_, by simp [herr, had]⟩
    · rw [subscribed_iff_member, subscribed_iff_member, ht, Topics.member_opened,
        List.mem_singleton]
      refine (or_iff_left ?_).symm
      rintro ⟨-, rfl, hm⟩
      exact had hm
    · rw [admits_iff, admits_iff, ht, Topics.isSome_opened, hdict]
      by_cases hm : m = n
      · subst hm
        simp [hreq]
      · simp [hm]

/-- One named unsubscription. -/
theorem EventsWF.left_unsubscribeOne (h : b.EventsWF) (client : Client)
    (answers : DaemonAnswers) (n : String) :
    Left client answers b (unsubscribeOne client answers b n).1 [n]
      (unsubscribeOne client answers b n).2 := by
  rcases h.unsubscribeOne_spec client answers n with ⟨hrel, herr, ht⟩ | ⟨hrel, heq⟩
  · refine ⟨fun c m => ?_, fun m => ?_, by simp [herr, hrel]⟩
    · rw [subscribed_iff_member, subscribed_iff_member, ht, Topics.member_leave,
        List.mem_singleton]
      refine and_congr_right (fun _ => not_congr (and_congr_right (fun _ => ?_)))
      exact ⟨fun hm => ⟨hm, hm ▸ hrel⟩, And.left⟩
    · unfold Releases
      rw [← isSome_topics, ← isSome_topics, ht, Topics.isSome_leave]
  · rw [heq]
    refine ⟨fun c m => ?_, fun m => Iff.rfl, by simp [hrel]⟩
    refine (and_iff_left ?_).symm
    rw [List.mem_singleton]
    rintro ⟨-, rfl, hm⟩
    exact hrel hm

/-- **A subscription by name or to everything.** -/
theorem Sane.joined_subscribeSignal {depth : ℕ} {s s' : Binder × List (String × Json)}
    {name : String} {e : ℕ} (h : Sane d s.1)
    (hs : Binder.subscribeSignal client answers depth s name = some (s', e)) :
    Joined client answers s.1 s'.1 (requested d name) e := by
  induction depth generalizing s s' name e with
  | zero => cases hs
  | succ depth ih =>
    rw [Binder.subscribeSignal] at hs
    split_ifs at hs with hname
    · have hlist : s.1.getSupportPropertiesList = d.getSupportPropertiesList :=
        h.layout.supportPropertyList
      rw [hlist] at hs
      obtain ⟨e', rfl, hj⟩ := forAll_trans (P := fun t => Sane d t.1)
        (R := fun (t t' : Binder × List (String × Json)) names e =>
          Joined client answers t.1 t'.1 names e) (requested d)
        (fun t => Joined.refl t.1) (fun _ _ _ _ _ _ _ h₁ h₂ => h₁.trans h₂)
        (fun t n t' e' ht hn => ⟨ht.subscribeSignal hn, ih ht hn⟩) hs h
      rw [hname, Nat.zero_add]
      exact hj.congr (fun n => mem_flatMap_requested)
    · have hone := h.events.joined_subscribeOne client answers name
      rw [Option.some.inj hs] at hone
      unfold requested
      rwa [if_neg hname]

/-- **An unsubscription by name or from everything.** -/
theorem Sane.left_unsubscribeSignal {depth : ℕ} {b' : Binder} {name : String} {e : ℕ}
    (h : Sane d b) (hs : Binder.unsubscribeSignal client answers depth b name = some (b', e)) :
    Left client answers b b' (requested d name) e := by
  induction depth generalizing b b' name e with
  | zero => cases hs
  | succ depth ih =>
    rw [Binder.unsubscribeSignal] at hs
    split_ifs at hs with hname
    · have hlist : b.getSupportPropertiesList = d.getSupportPropertiesList :=
        h.layout.supportPropertyList
      rw [hlist] at hs
      obtain ⟨e', rfl, hj⟩ := forAll_trans (P := fun t => Sane d t)
        (R := Left client answers) (requested d) Left.refl
        (fun _ _ _ _ _ _ _ h₁ h₂ => h₁.trans h₂)
        (fun t n t' e' ht hn => ⟨ht.unsubscribeSignal hn, ih ht hn⟩) hs h
      rw [hname, Nat.zero_add]
      exact hj.congr (fun n => mem_flatMap_requested)
    · have hone := h.events.left_unsubscribeOne client answers name
      rw [Option.some.inj hs] at hone
      unfold requested
      rwa [if_neg hname]

end Loops

end Binder
