import FrankenRemote.InputCalls

/-! Where native effects come from. Every entry of the trail obeys a rule about what stands
before it, and every stage of a call keeps to the rules. -/
namespace FrankenRemote.Input

open Procedure Relation List

/-- The final check passed for this request and operation while nothing was revoked. Since then,
others had their turns and the policy was asked again at most. -/
def Warranted (lease : InputLeaseId) (credentials : InputCredentials) (op : Operation)
    (earlier : List Occurrence) : Prop :=
  ∃ before held a at_ until_ aside, earlier = before ++
      .authority held ⟨a,.submissionDeadline lease credentials.ticket at_,.instant (.ok until_)⟩ ::
      .warrant credentials credentials.view op :: aside ∧
    .revoke ∉ before ∧ ∀ o ∈ aside, o.aside = true

/-- What must stand before an entry of a call's trail, for a call that found its owner active or
not. -/
def Rule (lease : InputLeaseId) (c : Option InputCredentials) (active : Bool)
    (earlier : List Occurrence) : Occurrence → Prop
  | .warrant _ _ _ => active = true ∧ .revoke ∉ earlier
  | .report op true _ | .unwound op true =>
    active = true ∧ ∃ credentials, c = some credentials ∧ Warranted lease credentials op earlier
  | .submit op tracked _ => tracked = true ∧ op.isRelease = true
  | _ => True

structure Extends (c : Option InputCredentials) (new : List Occurrence) (w w' : World) : Prop where
  trail : w'.trail = w.trail ++ new
  lease : w'.lease = w.lease
  active : w'.isActive = true → w.isActive = true
  revoked : .revoke ∈ new → w'.isActive = false
  rule : ∀ earlier o rest, new = earlier ++ o :: rest → Rule w.lease c w.isActive earlier o

section Rules

variable {c : Option InputCredentials} {cr : InputCredentials} {op : Operation}
  {w w' w'' : World} {new new' : List Occurrence}

variable {l : InputLeaseId} {earlier : List Occurrence}

theorem Warranted.prepend {first} (h : Warranted l cr op earlier) (hf : .revoke ∉ first) :
    Warranted l cr op (first ++ earlier) := by
  obtain ⟨before,held,a,at_,u,aside,rfl,hb,ha⟩ := h
  refine ⟨first ++ before,held,a,at_,u,aside,by simp,?_,ha⟩
  simp [hf,hb]

variable {o : Occurrence}

/-- A rule for the end of a trail is a rule for the whole of it. -/
theorem Rule.prepend {ac ac' first} (h : Rule l c ac' earlier o) (hact : ac' = true → ac = true)
    (hf : ac' = true → .revoke ∉ first) : Rule l c ac (first ++ earlier) o := by
  cases o with
  | warrant => exact ⟨hact h.1,by simp [hf h.1,h.2]⟩
  | report op warranted result | unwound op warranted =>
    cases warranted with
    | false => trivial
    | true =>
      obtain ⟨ha,cr,hc,hw⟩ := h
      exact ⟨hact ha,cr,hc,hw.prepend (hf ha)⟩
  | submit => exact h
  | _ => trivial

namespace Extends

theorem trans (h : Extends c new w w') (h' : Extends c new' w' w'') :
    Extends c (new ++ new') w w'' where
  trail := by rw [h'.trail,h.trail,append_assoc]
  lease := h'.lease.trans h.lease
  active ha := h.active (h'.active ha)
  revoked ho := by
    rcases mem_append.mp ho with ho | ho
    · by_contra hact
      have hact := h'.active (by simpa using hact)
      rw [h.revoked ho] at hact
      cases hact
    · exact h'.revoked ho
  rule earlier o rest hs := by
    rcases append_eq_append_iff.mp hs with ⟨earlier',rfl,hnew'⟩ | ⟨rest',hnew,hr⟩
    · have hrule := h'.rule earlier' o rest hnew'
      rw [h.lease] at hrule
      refine hrule.prepend h.active fun hact ho => ?_
      rw [h.revoked ho] at hact
      cases hact
    · cases rest' with
      | nil =>
        simp only [nil_append,append_nil] at hr hnew
        have hrule := h'.rule [] o rest hr.symm
        rw [h.lease] at hrule
        subst hnew
        simpa using hrule.prepend h.active fun hact ho => by
          rw [h.revoked ho] at hact
          cases hact
      | cons o' rest' =>
        simp only [cons_append,List.cons.injEq] at hr
        obtain ⟨rfl,-⟩ := hr
        exact h.rule earlier o rest' hnew

theorem note (h : Extends c new w w') (ho : o ≠ .revoke)
    (hrule : Rule w.lease c w.isActive new o) : Extends c (new ++ [o]) w (w'.note o) where
  trail := by simp [World.note,h.trail]
  lease := h.lease
  active := h.active
  revoked hm := by
    rcases mem_append.mp hm with hm | hm
    · exact h.revoked hm
    · exact absurd (mem_singleton.mp hm).symm ho
  rule earlier o' rest hs := by
    rcases Transition.snoc_split hs with ⟨rfl,rfl,rfl⟩ | ⟨rest,rfl,hnew⟩
    · exact hrule
    · exact h.rule earlier o' rest hnew

theorem same (ht : w'.trail = w.trail) (hl : w'.lease = w.lease)
    (ha : w'.isActive = true → w.isActive = true) : Extends c [] w w' :=
  ⟨by simp [ht],hl,ha,by simp,by simp⟩

theorem refl : Extends c [] w w := same rfl rfl id

end Extends

theorem Rule.of_aside {a} (h : o.aside = true) : Rule l c a earlier o := by
  cases o <;> trivial

theorem Frame.inactive (h : Frame w w') (ha : w'.isActive = true) : w.isActive = true := by
  simp only [World.isActive,Bool.and_eq_true,Bool.not_eq_true'] at ha ⊢
  refine ⟨?_,by rw [← ha.2,h.record]⟩
  by_contra hr
  rw [h.revoked (by simpa using hr)] at ha
  cases ha.1

theorem Frame.extends_ (h : Frame w w') :
    ∃ new, Extends c new w w' ∧ ∀ o ∈ new, o.aside = true := by
  obtain ⟨new,hnew,ha,hr⟩ := h.trail
  refine ⟨new,⟨hnew,h.lease,h.inactive,fun ho => ?_,fun earlier o rest hs => ?_⟩,ha⟩
  · simp [World.isActive,hr ho]
  · exact .of_aside (ha o (by simp [hs]))

/-- A grant is the positive answer of the policy and the note of it, with nothing between. -/
theorem Grant.extends_ (h : Grant cr op w w') : ∃ held a at_ u, Extends c
      [.authority held ⟨a,.submissionDeadline w.lease cr.ticket at_,.instant (.ok u)⟩,
        .warrant cr cr.view op] w w' := by
  cases h with
  | @mk at_ u h =>
    refine ⟨w.heldCount,w.authority,at_,u,?_⟩
    have hc : Extends c [.authority w.heldCount
        ⟨w.authority,.submissionDeadline w.lease cr.ticket at_,.instant (.ok u)⟩] w
        (w.consult (.submissionDeadline w.lease cr.ticket at_)) := by
      refine ⟨?_,rfl,id,by simp,fun earlier o rest hs => ?_⟩
      · simp only [World.consult,World.note,h.accepted]
      · rcases singleton_eq_append_iff.mp hs with ⟨rfl,ho⟩ | ⟨rfl,ho⟩
        · cases ho
          trivial
        · cases ho
    have hw := hc.note (o := .warrant cr cr.view op) (by simp)
      ⟨h.active,by simp⟩
    refine {hw with trail := ?_}
    rw [← singleton_append,← hw.trail,h.view]
    rfl

/-- After a grant and the turns of others, the operation is warranted. -/
theorem Grant.warrants {b} (h : Grant cr op w w') (q : Quiet w' b) :
    ∃ new, Extends c new w b ∧ Warranted w.lease cr op new ∧ w.isActive = true := by
  obtain ⟨held,a,at_,u,hg⟩ := h.extends_ (c := c)
  obtain ⟨aside,hq,ha⟩ := (Frame.of_quiet q).extends_ (c := c)
  refine ⟨_,hg.trans hq,⟨[],held,a,at_,u,aside,rfl,by simp,ha⟩,?_⟩
  cases h with
  | mk h => exact h.active

theorem Step.extends_ (h : Step c w w') : ∃ new, Extends c new w w' := by
  cases h with
  | quiet h =>
    obtain ⟨new,hnew,-⟩ := (Frame.of_quietly h).extends_ (c := c)
    exact ⟨new,hnew⟩
  | prepare | unchecked | uncalled => exact ⟨_,Extends.refl.note (by simp) trivial⟩
  | checked hc h =>
    obtain ⟨_,_,_,_,hg⟩ := h.extends_ (c := c)
    exact ⟨_,hg⟩
  | report hc h q r | unwound hc h q =>
    obtain ⟨new,hnew,hw,ha⟩ := h.warrants q (c := c)
    exact ⟨_,hnew.note (by simp) ⟨ha,_,hc,hw⟩⟩
  | submit hr ht r => exact ⟨_,Extends.refl.note (by simp) ⟨rfl,hr⟩⟩
  | tidy hh hrec hs hl ho =>
    refine ⟨[],.same rfl hl fun ha => ?_⟩
    simp only [World.isActive,hrec] at ha ⊢
    exact ha
  | stray => exact ⟨[],.same rfl rfl id⟩

theorem Stage.extends_ {b} (h : Stage b c w w') : ∃ new, Extends c new w w' := by
  cases h with
  | step h => exact h.extends_
  | fence =>
    refine ⟨[],.same rfl rfl fun ha => ?_⟩
    simp [World.isActive,InputSequenceLedger.fence] at ha
  | retain _ h =>
    refine ⟨[],.same rfl rfl fun ha => ?_⟩
    simp only [World.isActive,Bool.and_eq_true,Bool.not_eq_true'] at ha ⊢
    refine ⟨ha.1,?_⟩
    by_contra hf
    rw [h (by simpa using hf)] at ha
    cases ha.2
  | record h => exact ⟨_,Extends.refl.note (by simp) trivial⟩
  | confirm h =>
    obtain ⟨new,hnew,-⟩ := (Frame.consult w (.confirmSuspensionRelease w.lease)).extends_ (c := c)
    exact ⟨new,hnew⟩

theorem stages_extends {b} (h : ReflTransGen (Stage b c) w w') : ∃ new, Extends c new w w' := by
  induction h with
  | refl => exact ⟨[],.refl⟩
  | tail _ h ih =>
    obtain ⟨new,hnew⟩ := ih
    obtain ⟨new',hnew'⟩ := h.extends_
    exact ⟨new ++ new',hnew.trans hnew'⟩

end Rules

/-! Native effects. -/

/-- The operation that the OS may have executed when this was observed. -/
def Occurrence.native : Occurrence → Option Operation
  | .report op _ (.ok .submitted) | .report op _ (.ok .unknown) | .unwound op true
  | .submit op _ _ => some op
  | _ => none

/-- Sinks submit only what their callback let through. -/
def SinkContract (trail : List Occurrence) : Prop :=
  ∀ op result, .report op false (.ok result) ∈ trail → result ≠ .submitted ∧ result ≠ .unknown

/-- A request of another session or lease is refused before anything else. -/
theorem dispatch_foreign {w : World} {r : InputRequest}
    (h : r.credentials.session ≠ w.session ∨ r.credentials.lease ≠ w.lease) :
    ∃ refusal, (refusal = .staleSession ∨ refusal = .staleLease) ∧
      step w (.dispatch r) = (.dispatched (.error (.refused refusal)),w) := by
  by_cases hs : r.credentials.session ≠ w.session
  · exact ⟨.staleSession,.inl rfl,by simp [step,call,dispatch,hs]⟩
  · have hl : r.credentials.lease ≠ w.lease := h.resolve_left hs
    exact ⟨.staleLease,.inr rfl,by simp [step,call,dispatch,not_not.mp hs,hl]⟩

theorem credentials_eq_some {call : SessionCall} {cr} (h : call.credentials = some cr) :
    ∃ q, call = .dispatch q ∧ q.credentials = cr := by
  cases call with
  | dispatch q => exact ⟨q,rfl,Option.some.inj h⟩
  | _ => cases h

theorem Rule.native {l c a earlier o op} (h : Rule l c a earlier o)
    (hsink : ∀ op r, o = .report op false (.ok r) → r ≠ .submitted ∧ r ≠ .unknown)
    (hnat : o.native = some op) : ((∃ r, o = .submit op true r) ∧ op.isRelease = true) ∨
      (a = true ∧ ∃ cr, c = some cr ∧ Warranted l cr op earlier) := by
  cases o with
  | submit op' tracked r =>
    cases hnat
    obtain ⟨rfl,hr⟩ := h
    exact .inl ⟨⟨r,rfl⟩,hr⟩
  | unwound op' warranted =>
    cases warranted with
    | false => cases hnat
    | true =>
      cases hnat
      exact .inr h
  | report op' warranted r =>
    have hres : (r = .ok .submitted ∨ r = .ok .unknown) ∧ op' = op := by
      rcases r with refusal | submission
      · cases hnat
      · cases submission with
        | submitted => exact ⟨.inl rfl,Option.some.inj hnat⟩
        | unknown => exact ⟨.inr rfl,Option.some.inj hnat⟩
        | _ => cases hnat
    obtain ⟨hres,rfl⟩ := hres
    cases warranted with
    | false =>
      rcases hres with rfl | rfl
      · exact absurd rfl (hsink _ _ rfl).1
      · exact absurd rfl (hsink _ _ rfl).2
    | true => exact .inr h
  | _ => cases hnat

/-- A revocation on the way leaves the owner inactive. -/
theorem final_inactive (w : World) (ca : List SessionCall) :
    ∃ soFar, (final w ca).trail = w.trail ++ soFar ∧
    ((final w ca).isActive = true → w.isActive = true) ∧
      (.revoke ∈ soFar → (final w ca).isActive = false) := by
  induction ca generalizing w with
  | nil => exact ⟨[],by simp [Transition.final],id,by simp⟩
  | cons call ca ih =>
    obtain ⟨new,hnew⟩ := stages_extends (step_stages w call)
    obtain ⟨soFar,ht,ha,hr⟩ := ih (step w call).2
    have hfin : final w (call :: ca) = final (step w call).2 ca := rfl
    rw [hfin]
    refine ⟨new ++ soFar,?_,fun h => hnew.active (ha h),fun ho => ?_⟩
    · rw [ht,hnew.trail,append_assoc]
    · rcases mem_append.mp ho with ho | ho
      · by_contra h
        have h := ha (by simpa using h)
        rw [hnew.revoked ho] at h
        cases h
      · exact hr ho

/-- In every call of every run, a native effect is either a release of input that is tracked, or
was let through by a final check that passed for exactly the request of this call, with nothing
revoked or fenced until then and nothing but turns of others since. -/
theorem native_effect_authorized (w : World) (calls : List SessionCall)
    (past later : List SessionEvent) (e : SessionEvent) (hrun : trace w calls = past ++ e :: later)
    (hsink : SinkContract (step e.before e.input).2.trail) :
    ∃ soFar new, e.before.trail = w.trail ++ soFar ∧
    (step e.before e.input).2.trail = e.before.trail ++ new ∧
      ∀ earlier o rest op, new = earlier ++ o :: rest → o.native = some op →
        ((∃ result, o = .submit op true result) ∧ op.isRelease = true) ∨
        (w.isActive = true ∧ e.before.isActive = true ∧ .revoke ∉ soFar ∧
          ∃ request, e.input = .dispatch request ∧ request.credentials.session = e.before.session ∧
            request.credentials.lease = e.before.lease ∧
            Warranted e.before.lease request.credentials op earlier) := by
  obtain ⟨is₁,call,_,-,-,rfl,-⟩ := Transition.trace_split step hrun
  obtain ⟨soFar,hsoF,ha,hr⟩ := final_inactive w is₁
  obtain ⟨new,hnew⟩ := stages_extends (step_stages (final w is₁) call)
  refine ⟨soFar,new,hsoF,hnew.trail,fun earlier o rest op hs hnat => ?_⟩
  have hm : o ∈ (step (final w is₁) call).2.trail := by rw [hnew.trail,hs]; simp
  have hk (op : Operation) (result : Submission) (ho : o = .report op false (.ok result)) :
      result ≠ .submitted ∧ result ≠ .unknown := hsink op result (ho ▸ hm)
  refine ((hnew.rule earlier o rest hs).native hk hnat).imp id ?_
  rintro ⟨hon,cr,hc,hw⟩
  obtain ⟨request,rfl,rfl⟩ := credentials_eq_some hc
  have hown : ¬(request.credentials.session ≠ (final w is₁).session ∨
      request.credentials.lease ≠ (final w is₁).lease) := by
    intro hf
    obtain ⟨_,-,hstep⟩ := dispatch_foreign hf
    have ht := hnew.trail
    rw [hstep,hs] at ht
    simp at ht
  push Not at hown
  refine ⟨ha hon,hon,fun ho => ?_,request,rfl,hown.1,hown.2,hw⟩
  rw [hr ho] at hon
  cases hon

/-- A session whose first press a revocation overtakes, right after the final check. -/
def overtaken : World :=
  sampleWorld (List.replicate 12 [] ++ [[.revoke]]) (List.replicate 4 (sampleAnswer 5))

theorem overtaken_trail : ∃ a₁ a₂ r, (step overtaken (.dispatch (samplePress 0))).2.trail =
      [.authority 0 a₁,.prepare (.key sampleKey .press),.authority 0 a₂,
        .warrant sampleCredentials sampleCredentials.view (.key sampleKey .press),.revoke] ++
      .report (.key sampleKey .press) true (.ok .submitted) :: [.record r false] :=
  ⟨_,_,_,rfl⟩

theorem overtaken_sink : SinkContract (step overtaken (.dispatch (samplePress 0))).2.trail := by
  obtain ⟨_,_,r,ht⟩ := overtaken_trail
  intro op result hm
  rw [ht] at hm
  simp at hm

/-- The final check can pass right before a revocation, which the native call then follows. -/
theorem press_after_revocation :
    ∃ w request earlier rest, Opens sampleAuthority w ∧ SinkContract
      (step w (.dispatch request)).2.trail ∧ (step w (.dispatch request)).2.trail =
        earlier ++ .report (.key sampleKey .press) true (.ok .submitted) :: rest ∧
        .revoke ∈ earlier := by
  obtain ⟨_,_,r,ht⟩ := overtaken_trail
  exact ⟨overtaken,samplePress 0,_,_,sampleWorld_opens _ _,overtaken_sink,ht,by simp⟩

theorem native_effect_authorized_overtaken :
    ∃ earlier rest, (step overtaken (.dispatch (samplePress 0))).2.trail =
        earlier ++ .report (.key sampleKey .press) true (.ok .submitted) :: rest ∧
      Warranted ⟨7⟩ sampleCredentials (.key sampleKey .press) earlier := by
  obtain ⟨_,_,r,ht⟩ := overtaken_trail
  obtain ⟨_,new,-,hnew,he⟩ := native_effect_authorized overtaken [.dispatch (samplePress 0)]
    [] [] ⟨overtaken,.dispatch (samplePress 0),_⟩ rfl overtaken_sink
  have hs : new = _ := hnew.symm.trans ht
  refine ⟨_,_,ht,?_⟩
  rcases he _ _ _ _ hs rfl with ⟨⟨_,hsub⟩,-⟩ | ⟨-,-,-,_,hi,-,-,hw⟩
  · cases hsub
  · cases hi
    exact hw

end FrankenRemote.Input
