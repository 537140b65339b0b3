import CanBinder.Reception

/-!
# What a subscription is given

The reply to a `subscribe` request has the value of every property the client
was subscribed to by it, and the client is subscribed to each name in the
reply (`Answered`). Subscribing to further names keeps both, and a frame
takes no subscription away.
-/

/-- What an answer has after `json_object_object_add`. -/
theorem Json.mem_objectAdd {l : List (String × Json)} {key m : String} {j v : Json}
    (h : (m, v) ∈ Json.objectAdd l key j) : m = key ∧ v = j ∨ (m, v) ∈ l := by
  unfold Json.objectAdd at h
  split_ifs at h
  · obtain ⟨x, hx, heq⟩ := List.mem_map.mp h
    split_ifs at heq
    · cases heq
      exact Or.inl ⟨rfl, rfl⟩
    · subst heq
      exact Or.inr hx
  · rcases List.mem_append.mp h with h | h
    · exact Or.inr h
    · cases List.mem_singleton.mp h
      exact Or.inl ⟨rfl, rfl⟩

namespace Binder

/-- **The names answered are subscribed to, with their values.** -/
def Answered (client : Client) (b : Binder) (apply : List (String × Json)) : Prop :=
  ∀ m j, (m, j) ∈ apply → b.Subscribed client m
    ∧ ∃ a, b.getPropertyDict m = some a ∧ j = (b.property2json a).getD .null

/-- A new event takes no subscription away. -/
theorem EventsWF.subscribed_registerEvent {b b' : Binder} (h : b.EventsWF)
    {answers : DaemonAnswers} {name : String} {event : BindEvent}
    (hnone : b.getEvent name = none) (hr : b.registerEvent answers name = some (b', event))
    {client : Client} {m : String} (hsub : b.Subscribed client m) : b'.Subscribed client m := by
  obtain ⟨event', hev, hcl⟩ := hsub
  have hne : m ≠ name := by
    rintro rfl
    rw [hev] at hnone
    cases hnone
  obtain ⟨hget, hclients⟩ := h.registerEvent_of_ne hnone hr hne
  refine ⟨event', hget.trans hev, ?_⟩
  rw [hclients event' hev]
  exact hcl

/-- Adding a client to an event takes no subscription away. -/
theorem Subscribed.afbReqSubscribe {b : Binder} {client client' : Client} {m : String}
    (h : b.Subscribed client m) (event : AfbEvent) :
    (b.afbReqSubscribe client' event).Subscribed client m := by
  obtain ⟨event', hev, hcl⟩ := h
  refine ⟨event', hev, ?_⟩
  show client ∈ Function.update b.clients _ _ _
  by_cases hc : event'.event.closure = event.closure
  · rw [hc, Function.update_self, ← hc]
    split_ifs
    · exact hcl
    · exact List.mem_append_left _ hcl
  · rw [Function.update_of_ne hc]
    exact hcl

/-- The client is subscribed to the event it was added to. -/
theorem subscribed_afbReqSubscribe {b : Binder} {client : Client} {event : BindEvent}
    (h : b.getEvent event.name = some event) :
    (b.afbReqSubscribe client event.event).Subscribed client event.name := by
  refine ⟨event, h, ?_⟩
  show client ∈ Function.update b.clients _ _ _
  rw [Function.update_self]
  split_ifs with hcl
  · exact hcl
  · exact List.mem_append_right _ (List.mem_singleton_self _)

variable {d : Dict} {client : Client} {answers : DaemonAnswers}

/-- One named subscription answers with its value. -/
theorem Answered.subscribeOne {s : Binder × List (String × Json)} (hs : Sane d s.1)
    (h : Answered client s.1 s.2) (answers : DaemonAnswers) (name : String) :
    Answered client (subscribeOne client answers s name).1.1
      (subscribeOne client answers s name).1.2 := by
  obtain ⟨b, apply⟩ := s
  rcases subscribeOne_cases client answers b apply name with heq | ⟨b', event, hfound, hcase⟩
  · rw [heq]
    exact h
  · have hb' : b'.EventsWF ∧ b'.getEvent event.name = some event
        ∧ b'.toDict = b.toDict ∧ ∀ m, b.Subscribed client m → b'.Subscribed client m := by
      rcases hfound with ⟨rfl, hev⟩ | ⟨hnone, hr⟩
      · obtain ⟨-, hname⟩ := hs.events.getEvent_eq_some_iff.mp hev
        exact ⟨hs.events, hname ▸ hev, rfl, fun _ hm => hm⟩
      · obtain ⟨hwf, hev⟩ := hs.events.registerEvent hnone hr
        obtain ⟨-, hname⟩ := hwf.getEvent_eq_some_iff.mp hev
        exact ⟨hwf, hname ▸ hev, registerEvent_toDict hr,
          fun _ hm => hs.events.subscribed_registerEvent hnone hr hm⟩
    obtain ⟨hwf, hev, hdict, hkeep⟩ := hb'
    -- what was answered before is still known
    have hold : Answered client b' apply := fun m j hm => by
      obtain ⟨hsub, hval⟩ := h m j hm
      rw [hdict]
      exact ⟨hkeep m hsub, hval⟩
    rcases hcase with heq | heq
    · rw [heq]
      exact hold
    · rw [heq]
      intro m j hm
      rcases Json.mem_objectAdd hm with ⟨rfl, rfl⟩ | hm
      · exact ⟨subscribed_afbReqSubscribe hev, event.rawInfo,
          hwf.info event (hwf.getEvent_eq_some_iff.mp hev).1, rfl⟩
      · obtain ⟨hsub, hval⟩ := hold m j hm
        exact ⟨hsub.afbReqSubscribe event.event, hval⟩

/-- Subscribing by name or to everything answers with the values. -/
theorem Answered.subscribeSignal {depth : ℕ} {s s' : Binder × List (String × Json)}
    {name : String} {e : ℕ} (hs : Sane d s.1) (h : Answered client s.1 s.2)
    (hsig : subscribeSignal client answers depth s name = some (s', e)) :
    Answered client s'.1 s'.2 := by
  exact (subscribeSignal_invariant (P := fun t => Sane d t.1 ∧ Answered client t.1 t.2)
    (fun _ n _ ht => ⟨ht.1.subscribeOne client answers n, ht.2.subscribeOne ht.1 answers n⟩)
    hsig ⟨hs, h⟩).2

/-- **A subscription is given the values of what it subscribed to.** -/
theorem Sane.answered_subscribe {b b' : Binder} {event : Option String}
    {l : List (String × Json)} (hb : Sane d b)
    (hs : b.subscribe client event answers = some (b', [.success client (some (.object l))])) :
    Answered client b' l := by
  rcases subscribe_cases hs with ⟨-, -, hout⟩ | ⟨name, b₁, apply, err, -, heq, rfl, hout⟩
  · cases hout
  · split_ifs at hout
    · cases hout
      have h₁ : Answered client b₁ l :=
        Answered.subscribeSignal (s := (b, [])) hb (fun m j hm => absurd hm List.not_mem_nil) heq
      -- the filter of the socket has no part in it
      obtain ⟨filter, hfilter⟩ := socketcanUpdateFilter_eq b₁ b₁.getSubscribedCanids
      rw [hfilter]
      exact h₁
    · cases hout

end Binder
