import GoSmtp.Lib.Exclusive
import GoSmtp.Server.Params

/-!
# The order of parameters

The parser goes through the parameters with a set of the keywords it has met, and with options whose
records are made on the way.  Still the order of the parameters does not matter: the parameters
exclude one another as `Exclusive` has it, and two of them that do not set different parts of the
options.  Only the parameters that are not known keep their order.
-/

namespace GoSmtp.Server

variable {s : MailSetting} {q : EsmtpParam} {l l' : List EsmtpParam} {extensions : Extensions}
  {κ : Type}

variable {p : EsmtpParam} {σ : Type} {setting t : MailSetting} {time : TimeFormat}
  {k : RcptKeyword}

/-! ### Keywords that were there -/

theorem uniqueParameter_toOption (seen : List Bytes) (keyword : Bytes)
    (rest : List Bytes → Except Bytes (List Bytes × σ)) :
  ((do let seen ← uniqueParameter seen keyword; rest seen) : Except Bytes _).toOption =
    if keyword ∈ seen then none else (rest (keyword :: seen)).toOption
  := by
  rw [uniqueParameter]
  split
  · rfl
  · rfl

theorem setTo_toOption {τ : Type} (seen : List Bytes) (keyword : Bytes) (apply : τ → σ)
    (value : Option τ) :
  (setTo seen keyword apply value).toOption = value.map fun r => (seen, apply r)
  := by
  cases value with
  | none => rfl
  | some r => rfl

/-! ### MAIL -/

/-- A keyword that the parser knows. -/
inductive Known where
  | core (k : CoreKeyword)
  | extension (k : MailKeyword)
  deriving DecidableEq, Repr

namespace Known

def text : Known → Bytes
  | .core k => k.text
  | .extension k => k.text

def ofText (w : Bytes) : Option Known :=
  match CoreKeyword.ofText w with
  | some k => some (.core k)
  | none => (MailKeyword.ofText w).map .extension

theorem ofText_text (k : Known) :
  ofText k.text = some k
  := by
  rcases k with k | k <;> cases k <;> decide

theorem text_injective {j k : Known} (h : j.text = k.text) :
  j = k
  := by
  have hj := ofText_text j
  rw [h, ofText_text k] at hj
  exact (Option.some.inj hj).symm

theorem text_mem_map {k : Known} {l : List Known} :
  k.text ∈ l.map text ↔ k ∈ l
  := List.mem_map_of_injective fun _ _ => text_injective

/-- The keyword that excludes it. -/
def other : Known → Option Known
  | .core _ => none
  | .extension k => k.other.map .extension

/-- HOLDFOR and HOLDUNTIL set the same part of the options. -/
def slot : Known → Known
  | .extension .holdUntil => .extension .holdFor
  | k => k

theorem other_symm {j k : Known} (h : k ∈ j.other) :
  j ∈ k.other
  := by
  rcases j with j | j
  · cases h
  · cases j <;> cases h <;> rfl

theorem slot_eq (k : Known) :
  k.slot = k ∨ (k = .extension .holdUntil ∧ k.slot = .extension .holdFor)
  := by
  rcases k with k | k
  · exact .inl rfl
  · cases k <;> simp [slot]

theorem eq_or_other_of_slot {j k : Known} (h : j.slot = k.slot) :
  j = k ∨ j ∈ k.other
  := by
  rcases slot_eq j with hj | ⟨rfl, hj⟩
  · rcases slot_eq k with hk | ⟨rfl, hk⟩
    · exact .inl (hj.symm.trans (h.trans hk))
    · obtain rfl := hj.symm.trans (h.trans hk)
      exact .inr rfl
  · rcases slot_eq k with hk | ⟨rfl, hk⟩
    · obtain rfl := hk.symm.trans (h.symm.trans hj)
      exact .inr rfl
    · exact .inl rfl

end Known

section

variable (time : TimeFormat) (features : MailParameterFeatures)

/-- What a parameter with a keyword that is known sets. -/
def mailSet (p : EsmtpParam) : Known → Option MailSetting
  | .core k => coreSetting features p k
  | .extension k => (features.extensions k.extension).bind (mailSetting time · p k)

/-- The keyword of a parameter, if it is known. -/
def mailKey (p : EsmtpParam) : Option Known := Known.ofText (toUpper p.keyword)

/-- The parameters of MAIL. -/
def mailItems : Exclusive EsmtpParam Known MailOptions :=
  .keyed mailKey Known.other (mailSet time features) MailSetting.apply fun o p =>
    { o with extra := o.extra ++ [p] }

/-- The state of the parser: the keywords as they are written. -/
def mailState (s : List Known × MailOptions) : List Bytes × MailOptions := (s.1.map Known.text, s.2)

theorem text_mem_mailState {s : List Known × MailOptions} {k : Known} :
  k.text ∈ (mailState s).1 ↔ k ∈ s.1
  := Known.text_mem_map

theorem other_mem_mailState (s : List Known × MailOptions) (k : MailKeyword) :
  k.other.any (·.text ∈ Known.text (.extension k) :: (mailState s).1) =
    (Known.other (.extension k)).any (· ∈ s.1)
  := by
  have hmem (j : MailKeyword) (hne : j ≠ k) :
      j.text ∈ Known.text (.extension k) :: (mailState s).1 ↔ .extension j ∈ s.1 := by
    rw [List.mem_cons, ← text_mem_mailState]
    apply or_iff_right
    intro htext
    exact hne (Known.extension.inj (Known.text_injective (j := .extension j) htext))
  cases k with
  | holdFor => exact decide_eq_decide.mpr (hmem .holdUntil (by decide))
  | holdUntil => exact decide_eq_decide.mpr (hmem .holdFor (by decide))
  | _ => rfl

theorem mailParameter_toOption (s : List Known × MailOptions) (p : EsmtpParam) :
  (mailParameter time features (mailState s) p).toOption =
    ((mailItems time features).accept s p).map mailState
  := by
  rw [mailParameter]
  cases hcore : CoreKeyword.ofText (toUpper p.keyword) with
  | some k =>
    have hkey : mailKey p = some (.core k) := by simp [mailKey, Known.ofText, hcore]
    have htext : toUpper p.keyword = Known.text (.core k) := CoreKeyword.eq_text hcore
    rw [mailItems, Exclusive.keyed_admit_some hkey]
    simp only [uniqueParameter_toOption, setTo_toOption]
    rw [htext]
    by_cases hseen : .core k ∈ s.1
    · rw [if_pos (text_mem_mailState.mpr hseen), if_pos (.inl hseen)]
      rfl
    · rw [if_neg (mt text_mem_mailState.mp hseen), if_neg (by simp [hseen, Known.other]),
        Option.map_map]
      rfl
  | none =>
    cases hmail : MailKeyword.ofText (toUpper p.keyword) with
    | some k =>
      have hkey : mailKey p = some (.extension k) := by simp [mailKey, Known.ofText, hcore, hmail]
      have htext : toUpper p.keyword = Known.text (.extension k) := MailKeyword.eq_text hmail
      rw [mailItems, Exclusive.keyed_admit_some hkey]
      simp only [parseExtensionMailParameter]
      cases hext : features.extensions k.extension with
      | none => simp [mailSet, hext, Except.toOption]
      | some capability =>
        simp only [uniqueParameter_toOption]
        rw [htext]
        by_cases hseen : .extension k ∈ s.1
        · rw [if_pos (text_mem_mailState.mpr hseen), if_pos (.inl hseen)]
          rfl
        · rw [if_neg (mt text_mem_mailState.mp hseen), other_mem_mailState]
          cases hother : (Known.other (.extension k)).any (· ∈ s.1) with
          | true =>
            rw [if_pos rfl, if_pos (.inr rfl)]
            rfl
          | false =>
            rw [if_neg (by decide), if_neg (by simp [hseen]), setTo_toOption, Option.map_map,
              mailSet, hext]
            rfl
    | none =>
      have hkey : mailKey p = none := by simp [mailKey, Known.ofText, hcore, hmail]
      rw [mailItems, Exclusive.keyed_admit_none hkey]
      rfl

end

namespace MailSetting

/-- The keyword of a setting. -/
def slot : MailSetting → Known
  | .size _ => .core .size
  | .body _ => .core .body
  | .smtpUTF8 => .core .smtpUTF8
  | .auth _ _ => .core .auth
  | .ret _ => .extension .ret
  | .envid _ _ => .extension .envid
  | .deliverBy _ => .extension .deliverBy
  | .futureRelease _ => .extension .holdFor
  | .mtPriority _ => .extension .mtPriority
  | .requireTLS => .extension .requireTLS
  | .solicit _ => .extension .solicit
  | .transitID _ => .extension .mtrk
  | .submitter _ _ => .extension .submitter
  | .conPerm => .extension .conPerm

theorem apply_comm {a b : MailSetting} (h : a.slot ≠ b.slot) (o : MailOptions) :
  b.apply (a.apply o) = a.apply (b.apply o)
  := by
  cases a <;> cases b <;> first | exact absurd rfl h | rfl

theorem typed_apply (o : MailOptions) (setting : MailSetting) :
  (setting.apply o).typed = setting.apply o.typed
  := by
  cases setting <;> rfl

theorem extra_apply (o : MailOptions) (setting : MailSetting) :
  (setting.apply o).extra = o.extra
  := by
  cases setting <;> rfl

end MailSetting

theorem slot_of_ite {c : Prop} [Decidable c] (h : (if c then some s else none) = some t) :
  t.slot = s.slot
  := by
  split at h
  · cases h
    rfl
  · cases h

theorem slot_of_map {α : Type} {f : α → MailSetting} {k : Known} {o : Option α}
    (h : o.map f = some t) (hf : ∀ a, (f a).slot = k) :
  t.slot = k
  := by
  obtain ⟨a, -, rfl⟩ := Option.map_eq_some_iff.mp h
  exact hf a

theorem coreSetting_slot {features : MailParameterFeatures} {k : CoreKeyword}
    (h : coreSetting features p k = some setting) :
  setting.slot = .core k
  := by
  cases k with
  | size =>
    rw [coreSetting] at h
    split at h
    · cases h
    · obtain ⟨size, -, h⟩ := Option.bind_eq_some_iff.mp h
      split at h
      · cases h
      · cases h
        rfl
  | body =>
    obtain ⟨body, -, h⟩ := Option.bind_eq_some_iff.mp h
    exact slot_of_ite h
  | smtpUTF8 =>
    rw [coreSetting] at h
    split at h
    · cases h
    · cases h
      rfl
  | auth =>
    rw [coreSetting] at h
    split at h
    · cases h
    · exact slot_of_map h fun _ => rfl

theorem mailSetting_slot {capability : Bytes} {k : MailKeyword}
    (h : mailSetting time capability p k = some setting) :
  setting.slot = Known.slot (.extension k)
  := by
  cases k with
  | ret => exact slot_of_ite h
  | envid => exact slot_of_map h fun _ => rfl
  | deliverBy => exact slot_of_map h fun _ => rfl
  | holdFor => exact slot_of_map h fun _ => rfl
  | holdUntil => exact slot_of_map h fun _ => rfl
  | mtPriority => exact slot_of_ite h
  | requireTLS => exact slot_of_ite h
  | solicit => exact slot_of_ite h
  | mtrk => exact slot_of_ite h
  | submitter =>
    obtain ⟨decoded, -, h⟩ := Option.bind_eq_some_iff.mp h
    exact slot_of_ite h
  | conPerm => exact slot_of_ite h

section

variable {time : TimeFormat} {features : MailParameterFeatures}

theorem mailSet_slot {k : Known} (h : mailSet time features p k = some setting) :
  setting.slot = k.slot
  := by
  cases k with
  | core k => exact coreSetting_slot h
  | extension k =>
    obtain ⟨capability, -, h⟩ := Option.bind_eq_some_iff.mp h
    exact mailSetting_slot h

theorem mailSet_comm {j k : Known}
    (hs : mailSet time features p j = some s) (ht : mailSet time features q k = some t)
    (hne : j ≠ k) (hother : j ∉ k.other) (o : MailOptions) :
  t.apply (s.apply o) = s.apply (t.apply o)
  := by
  apply MailSetting.apply_comm
  rw [mailSet_slot hs, mailSet_slot ht]
  intro hslot
  rcases Known.eq_or_other_of_slot hslot with heq | hmem
  · exact hne heq
  · exact hother hmem

theorem mailItems_typed (h : (mailItems time features).Taken l) (hp : l.Perm l') :
  (l.foldl (mailItems time features).act {}).typed =
    (l'.foldl (mailItems time features).act {}).typed
  := by
  rw [mailItems] at h ⊢
  apply Exclusive.keyed_foldl_perm Known.other_symm MailSetting.typed_apply _ mailSet_comm h hp
  exact fun _ _ => rfl

theorem mailItems_extra (l : List EsmtpParam) :
  (l.foldl (mailItems time features).act {}).extra = l.filter fun p => !(mailKey p).isSome
  := by
  rw [mailItems, Exclusive.keyed_foldl_kept MailSetting.extra_apply fun _ _ => rfl]
  simp

end

/-! ### RCPT -/

section

variable (time : TimeFormat) (extensions : Extensions)

/-- What a parameter with a keyword that is known sets. -/
def rcptSet (p : EsmtpParam) (k : RcptKeyword) : Option RcptSetting :=
  if (extensions k.extension).isNone then none else rcptSetting time p k

def rcptKey (p : EsmtpParam) : Option RcptKeyword := RcptKeyword.ofText (toUpper p.keyword)

/-- The parameters of RCPT. -/
def rcptItems : Exclusive EsmtpParam RcptKeyword RcptOptions :=
  .keyed rcptKey (fun _ => none) (rcptSet time extensions) RcptSetting.apply fun o p =>
    { o with extra := o.extra ++ [p] }

def rcptState (s : List RcptKeyword × RcptOptions) : List Bytes × RcptOptions :=
  (s.1.map RcptKeyword.text, s.2)

theorem text_mem_rcptState {s : List RcptKeyword × RcptOptions} :
  k.text ∈ (rcptState s).1 ↔ k ∈ s.1
  := by
  apply List.mem_map_of_injective
  intro j k
  cases j <;> cases k <;> decide

theorem rcptParameter_toOption (s : List RcptKeyword × RcptOptions) (p : EsmtpParam) :
  (rcptParameter time extensions (rcptState s) p).toOption =
    ((rcptItems time extensions).accept s p).map rcptState
  := by
  rw [rcptParameter]
  cases hkey : RcptKeyword.ofText (toUpper p.keyword) with
  | none =>
    have hkey : rcptKey p = none := hkey
    rw [rcptItems, Exclusive.keyed_admit_none hkey]
    rfl
  | some k =>
    have htext : toUpper p.keyword = k.text := RcptKeyword.eq_text hkey
    have hkey : rcptKey p = some k := hkey
    rw [rcptItems, Exclusive.keyed_admit_some hkey]
    simp only [parseExtensionRcptParameter]
    cases hext : extensions k.extension with
    | none => simp [rcptSet, hext, Except.toOption]
    | some capability =>
      rw [if_neg (by simp), uniqueParameter_toOption, setTo_toOption, htext]
      by_cases hseen : k ∈ s.1
      · rw [if_pos (text_mem_rcptState.mpr hseen), if_pos (.inl hseen)]
        rfl
      · rw [if_neg (mt text_mem_rcptState.mp hseen), if_neg (by simp [hseen]), Option.map_map,
          rcptSet, hext]
        rfl

end

/-- The keyword of a setting. -/
def RcptSetting.slot : RcptSetting → RcptKeyword
  | .notify _ => .notify
  | .orcpt _ _ _ => .orcpt
  | .rrvs _ => .rrvs
  | .conNeg => .conNeg

theorem RcptSetting.apply_comm {a b : RcptSetting} (h : a.slot ≠ b.slot) (o : RcptOptions) :
  b.apply (a.apply o) = a.apply (b.apply o)
  := by
  cases a <;> cases b <;> first | exact absurd rfl h | rfl

theorem rcptSet_slot {setting : RcptSetting} (h : rcptSet time extensions p k = some setting) :
  setting.slot = k
  := by
  rw [rcptSet] at h
  split at h
  · cases h
  · cases k with
    | notify =>
      obtain ⟨values, -, rfl⟩ := Option.map_eq_some_iff.mp h
      rfl
    | orcpt =>
      rw [rcptSetting] at h
      split at h
      · cases h
      · obtain ⟨decoded, -, rfl⟩ := Option.map_eq_some_iff.mp h
        rfl
    | rrvs =>
      obtain ⟨value, -, rfl⟩ := Option.map_eq_some_iff.mp h
      rfl
    | conNeg =>
      rw [rcptSetting] at h
      split at h
      · cases h
        rfl
      · cases h

theorem rcptSet_comm {j : RcptKeyword} {s t : RcptSetting}
    (hs : rcptSet time extensions p j = some s) (ht : rcptSet time extensions q k = some t)
    (hne : j ≠ k) (_ : j ∉ (none : Option RcptKeyword)) (o : RcptOptions) :
  t.apply (s.apply o) = s.apply (t.apply o)
  := by
  apply RcptSetting.apply_comm
  rw [rcptSet_slot hs, rcptSet_slot ht]
  exact hne

theorem RcptSetting.typed_apply (o : RcptOptions) (setting : RcptSetting) :
  (setting.apply o).typed = setting.apply o.typed
  := by
  cases setting <;> rfl

theorem RcptSetting.extra_apply (o : RcptOptions) (setting : RcptSetting) :
  (setting.apply o).extra = o.extra
  := by
  cases setting <;> rfl

section

variable {time : TimeFormat} {extensions : Extensions}

theorem rcptItems_typed (h : (rcptItems time extensions).Taken l) (hp : l.Perm l') :
  (l.foldl (rcptItems time extensions).act {}).typed =
    (l'.foldl (rcptItems time extensions).act {}).typed
  := by
  rw [rcptItems] at h ⊢
  apply Exclusive.keyed_foldl_perm (fun h => by cases h) RcptSetting.typed_apply _ rcptSet_comm h hp
  exact fun _ _ => rfl

theorem rcptItems_extra (l : List EsmtpParam) :
  (l.foldl (rcptItems time extensions).act {}).extra = l.filter fun p => !(rcptKey p).isSome
  := by
  rw [rcptItems, Exclusive.keyed_foldl_kept RcptSetting.extra_apply fun _ _ => rfl]
  simp

end

/-! ### Both -/

theorem parseParameters_eq_ok [DecidableEq κ] {E : Exclusive EsmtpParam κ σ}
    (rep : List κ × σ → List Bytes × σ) {new : σ} (hrep : ∀ s, (rep s).2 = s.2)
    (hnew : rep ([], new) = ([], new))
    {step : List Bytes × σ → EsmtpParam → Except Bytes (List Bytes × σ)}
    (hstep : ∀ s p, (step (rep s) p).toOption = (E.accept s p).map rep)
    {params : List EsmtpParam} {o : Option σ} :
  parseParameters step new params = .ok o ↔
    E.Taken params ∧ o = if params.isEmpty then none else some (params.foldl E.act new)
  := by
  have hrun := E.foldlM_toOption hstep ([], new) params
  rw [hnew] at hrun
  rw [parseParameters]
  cases params with
  | nil =>
    have htaken : E.Taken [] := ⟨.nil, by simp⟩
    simp [htaken, eq_comm]
  | cons p l =>
    cases haccept : E.run ([], new) (p :: l) with
    | none =>
      cases hfold : (p :: l).foldlM step ([], new) with
      | error e =>
        constructor
        · rintro ⟨⟩
        · rintro ⟨htaken, -⟩
          rw [E.run_nil_eq_some.mpr ⟨htaken, rfl⟩] at haccept
          cases haccept
      | ok s =>
        rw [hfold, haccept] at hrun
        cases hrun
    | some t =>
      obtain ⟨htaken, rfl⟩ := E.run_nil_eq_some.mp haccept
      cases hfold : (p :: l).foldlM step ([], new) with
      | error e =>
        rw [hfold, haccept] at hrun
        cases hrun
      | ok s =>
        rw [hfold, haccept] at hrun
        have hs : s.2 = (p :: l).foldl E.act new := by
          rw [Option.some.inj hrun, hrep]
        constructor
        · rintro ⟨⟩
          exact ⟨htaken, congrArg some hs⟩
        · rintro ⟨-, rfl⟩
          exact congrArg (Except.ok ∘ some) hs

/-- The order of the parameters does not matter to a parser, except for those that have no type. -/
def OrderFree {σ : Type} (typed : σ → σ) (extra : σ → List EsmtpParam) (known : EsmtpParam → Bool)
    (parse : List EsmtpParam → Except Bytes (Option σ)) : Prop :=
  ∀ params params', params.Perm params' →
    ((∃ o, parse params = .ok o) ↔ ∃ o, parse params' = .ok o) ∧
    ∀ o o', parse params = .ok o → parse params' = .ok o' →
      o.map typed = o'.map typed ∧
      (o.map extra).getD [] = params.filter (!known ·) ∧
      (o'.map extra).getD [] = params'.filter (!known ·)

theorem orderFree_of_items {E : Exclusive EsmtpParam κ σ} {typed : σ → σ}
    {extra : σ → List EsmtpParam} {known : EsmtpParam → Bool} {new : σ}
    {parse : List EsmtpParam → Except Bytes (Option σ)}
    (hparse : ∀ {params o}, parse params = .ok o ↔
      E.Taken params ∧ o = if params.isEmpty then none else some (params.foldl E.act new))
    (hsymm : ∀ {p q}, E.Apart p q → E.Apart q p) (htyped : ∀ {l l'}, E.Taken l → l.Perm l' →
      typed (l.foldl E.act new) = typed (l'.foldl E.act new))
    (hextra : ∀ l : List EsmtpParam, extra (l.foldl E.act new) = l.filter (!known ·)) :
  OrderFree typed extra known parse
  := by
  have hkept {l : List EsmtpParam} : ((if l.isEmpty then none else
      some (l.foldl E.act new)).map extra).getD [] = l.filter (!known ·) := by
    cases l with
    | nil => rfl
    | cons p l => exact hextra (p :: l)
  intro l l' hp
  constructor
  · constructor
    · rintro ⟨o, h⟩
      exact ⟨_, hparse.mpr ⟨(hparse.mp h).1.perm hsymm hp, rfl⟩⟩
    · rintro ⟨o, h⟩
      exact ⟨_, hparse.mpr ⟨(hparse.mp h).1.perm hsymm hp.symm, rfl⟩⟩
  · intro o o' h h'
    obtain ⟨htaken, rfl⟩ := hparse.mp h
    obtain ⟨-, rfl⟩ := hparse.mp h'
    refine ⟨?_, hkept, hkept⟩
    have hempty : l.isEmpty = l'.isEmpty := by
      rw [Bool.eq_iff_iff, List.isEmpty_iff_length_eq_zero, List.isEmpty_iff_length_eq_zero,
        hp.length_eq]
    rw [hempty]
    split
    · rfl
    · rw [Option.map_some, Option.map_some, htyped htaken hp]

/-- The order of the parameters of MAIL and RCPT does not matter, whatever is advertised. -/
theorem parameterOrder (time : TimeFormat) (features : MailParameterFeatures)
    (extensions : Extensions) :
  OrderFree MailOptions.typed MailOptions.extra (fun p => (mailKey p).isSome)
    (parseMailParameters time features) ∧
  OrderFree RcptOptions.typed RcptOptions.extra (fun p => (rcptKey p).isSome)
    (parseRcptParameters time extensions)
  := by
  constructor
  · apply orderFree_of_items (E := mailItems time features)
    · exact parseParameters_eq_ok mailState (fun _ => rfl) rfl (mailParameter_toOption time features)
    · exact Exclusive.keyed_apart_symm Known.other_symm
    · intro l l' htaken hp
      exact mailItems_typed htaken hp
    · intro l
      exact mailItems_extra l
  · apply orderFree_of_items (E := rcptItems time extensions)
    · exact parseParameters_eq_ok rcptState (fun _ => rfl) rfl
        (rcptParameter_toOption time extensions)
    · exact Exclusive.keyed_apart_symm (fun h => by cases h)
    · intro l l' htaken hp
      exact rcptItems_typed htaken hp
    · intro l
      exact rcptItems_extra l

end GoSmtp.Server
