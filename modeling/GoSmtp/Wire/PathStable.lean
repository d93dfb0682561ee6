import GoSmtp.Wire.PathGrammar

/-!
# Rendering a path

A path that was parsed is written out again: the keyword, the mailbox in angle brackets, and each
parameter behind a space.  The source route is gone, so the scan for the closing bracket now begins
at the mailbox.  It may find another bracket than before: a literal with a zone can hold quotes and
brackets, and the route in front of it decides how they are read.
-/

namespace GoSmtp

open Octet

variable {allowNull : Bool} {m raw text : Bytes} {c : UInt8} {p : EsmtpParam} {q : Quoting}

variable {suffix w : Bytes} {forward utf8 : Bool} {path : WirePath} {texts : List Bytes}
  {params : List EsmtpParam} {opts : PathOptions}

/-! ### Parameters -/

theorem equals_not_mem_keyword (h : validateKeyword w = true) :
  equals ∉ w
  := by
  cases w with
  | nil => simp
  | cons c w =>
    obtain ⟨hc, hw⟩ := Bool.and_eq_true_iff.mp h
    rintro hmem
    rcases List.mem_cons.mp hmem with rfl | hmem
    · exact absurd hc (by decide)
    · exact absurd (List.all_eq_true.mp hw _ hmem) (by decide)

theorem visible_of_isLdh (h : isLdh c = true) :
  visible c = true
  := by
  simp only [isLdh, isAlnum, hyphen, visible, Bool.or_eq_true, Bool.and_eq_true, decide_eq_true_eq,
    beq_iff_eq, ← UInt8.toNat_inj, UInt8.le_iff_toNat_le, UInt8.reduceToNat] at h ⊢
  omega

theorem visible_keyword (h : validateKeyword w = true) :
  w ≠ [] ∧ w.all visible = true
  := by
  cases w with
  | nil => cases h
  | cons c w =>
    obtain ⟨hc, hw⟩ := Bool.and_eq_true_iff.mp h
    refine ⟨List.cons_ne_nil c w, ?_⟩
    rw [List.all_cons, visible_of_isLdh (by simp [isLdh, hc]), Bool.true_and, List.all_eq_true]
    intro d hd
    exact visible_of_isLdh (List.all_eq_true.mp hw d hd)

theorem visible_value (h : validateESMTPValue w = true) :
  w ≠ [] ∧ w.all visible = true
  := by
  simp only [validateESMTPValue, Bool.and_eq_true, Bool.not_eq_true', List.isEmpty_eq_false_iff] at h
  refine ⟨h.1, ?_⟩
  rw [List.all_eq_true]
  intro c hc
  have hc := List.all_eq_true.mp h.2 c hc
  simp only [Bool.not_eq_true', Bool.or_eq_false_iff, decide_eq_false_iff_not] at hc
  simp only [visible, Bool.and_eq_true, decide_eq_true_eq]
  exact ⟨UInt8.not_lt.mp hc.1.1, UInt8.not_lt.mp hc.1.2⟩

theorem parseParam_of_encodeParam (h : encodeParam p = some text) :
  parseParam text = some p ∧ text ≠ [] ∧ text.all visible = true
  := by
  rw [encodeParam] at h
  by_cases hkeyword : validateKeyword p.keyword = true
  swap
  · rw [if_pos (by simpa using hkeyword)] at h
    cases h
  rw [if_neg (by simpa using hkeyword)] at h
  split at h
  · next hempty =>
    cases h
    refine ⟨?_, visible_keyword hkeyword⟩
    rw [parseParam, cutEquals_of_not_mem (equals_not_mem_keyword hkeyword)]
    simp only [hkeyword, if_true]
    rw [← List.isEmpty_iff.mp hempty]
  · split at h
    · next hvalue =>
      cases h
      obtain ⟨_, hvisible⟩ := visible_value hvalue
      refine ⟨?_, by simp, ?_⟩
      · rw [parseParam, cutEquals_append (equals_not_mem_keyword hkeyword)]
        simp [hkeyword, hvalue]
      · have hequals : visible equals = true := by decide
        simp [List.all_append, (visible_keyword hkeyword).2, hequals, hvisible]
    · cases h

theorem encodeParam_of_parseParam {field : Bytes} (h : parseParam field = some p) :
  ∃ text, encodeParam p = some text
  := by
  rw [parseParam] at h
  split at h
  · next keyword hcut =>
    split at h
    · next hkeyword =>
      cases h
      use keyword
      simp [encodeParam, hkeyword]
    · cases h
  · next keyword value hcut =>
    split at h
    · next hvalid =>
      obtain ⟨hkeyword, hvalue⟩ := Bool.and_eq_true_iff.mp hvalid
      cases h
      obtain ⟨hne, _⟩ := visible_value hvalue
      use keyword ++ [equals] ++ value
      simp [encodeParam, hkeyword, hvalue, hne]
    · cases h

theorem mapM_of_encodeParam (h : params.mapM encodeParam = some texts) :
  texts.mapM parseParam = some params ∧ ∀ text ∈ texts, text ≠ [] ∧ text.all visible = true
  := by
  induction params generalizing texts with
  | nil =>
    cases h
    exact ⟨rfl, by simp⟩
  | cons p params ih =>
    rw [List.mapM_cons] at h
    obtain ⟨text, htext, h⟩ := Option.bind_eq_some_iff.mp h
    obtain ⟨rest, hrest, h⟩ := Option.bind_eq_some_iff.mp h
    cases h
    obtain ⟨hparse, hword⟩ := parseParam_of_encodeParam htext
    obtain ⟨hparses, hwords⟩ := ih hrest
    constructor
    · rw [List.mapM_cons, hparse, hparses]
      rfl
    · exact List.forall_mem_cons.mpr ⟨hword, hwords⟩

theorem mapM_of_parseParam {fields : List Bytes} (h : fields.mapM parseParam = some params) :
  ∃ texts, params.mapM encodeParam = some texts
  := by
  induction fields generalizing params with
  | nil =>
    cases h
    use []
    rfl
  | cons field fields ih =>
    rw [List.mapM_cons] at h
    obtain ⟨p, hp, h⟩ := Option.bind_eq_some_iff.mp h
    obtain ⟨ps, hps, h⟩ := Option.bind_eq_some_iff.mp h
    cases h
    obtain ⟨text, htext⟩ := encodeParam_of_parseParam hp
    obtain ⟨texts, htexts⟩ := ih hps
    use text :: texts
    rw [List.mapM_cons, htext, htexts]
    rfl

/-- Words with a space in front of each. -/
def precede (texts : List Bytes) : Bytes := texts.flatMap (sp :: ·)

theorem precede_eq :
  precede (text :: texts) = sp :: joinFields (text :: texts)
  := by
  induction texts generalizing text with
  | nil => simp [precede, joinFields]
  | cons next texts ih =>
    rw [joinFields_cons (by simp), precede, List.flatMap_cons]
    change (sp :: text) ++ precede (next :: texts) = _
    rw [ih]
    simp

theorem stringsFields_sp (w : Bytes) :
  stringsFields (sp :: w) = stringsFields w
  := by
  rw [stringsFields, spaced_sp]
  rfl

theorem stringsFields_precede (h : ∀ text ∈ texts, text ≠ [] ∧ text.all visible = true) :
  stringsFields (precede texts) = texts
  := by
  cases texts with
  | nil => rfl
  | cons text texts => rw [precede_eq, stringsFields_sp, stringsFields_joinFields h]

theorem precede_clean (h : ∀ text ∈ texts, text ≠ [] ∧ text.all visible = true) :
  (precede texts).any (fun c => c == cr || c == lf || c == 0 || c == 9) = false
  := by
  rw [List.any_eq_false]
  intro c hc
  obtain ⟨text, htext, hc⟩ := List.mem_flatMap.mp hc
  have hlow : 32 ≤ c := by
    rcases List.mem_cons.mp hc with rfl | hc
    · decide
    · have hvisible := List.all_eq_true.mp (h text htext).2 c hc
      simp only [visible, Bool.and_eq_true, decide_eq_true_eq] at hvisible
      exact UInt8.le_trans (by decide) hvisible.1
  simp only [Bool.or_eq_true, beq_iff_eq]
  rintro (((rfl | rfl) | rfl) | rfl) <;> exact absurd hlow (by decide)

theorem parsePathParams_of_encodeParam (h : params.mapM encodeParam = some texts) :
  parsePathParams (precede texts) = .ok params
  := by
  obtain ⟨hparse, hwords⟩ := mapM_of_encodeParam h
  cases texts with
  | nil =>
    cases hparse
    rfl
  | cons text texts =>
    rw [parsePathParams, precede_clean hwords, stringsFields_precede hwords, hparse, precede_eq]
    rfl

theorem parsePathParams_precede (h : parsePathParams suffix = .ok params) :
  ∃ texts, params.mapM encodeParam = some texts ∧ parsePathParams (precede texts) = .ok params
  := by
  have hencode : ∃ texts, params.mapM encodeParam = some texts := by
    rw [parsePathParams] at h
    split at h
    · cases h
      use []
      rfl
    · split at h
      · cases h
      · split at h
        · cases h
        · next hparsed =>
          cases h
          apply mapM_of_parseParam hparsed
  obtain ⟨texts, htexts⟩ := hencode
  use texts, htexts
  apply parsePathParams_of_encodeParam htexts

/-! ### The scan for the closing bracket -/

namespace Quoting

theorem escaped_quoted (h : q.escaped = true → q.quoted = true) (w : Bytes) :
  (q.run w).escaped = true → (q.run w).quoted = true
  := by
  induction w generalizing q with
  | nil => exact h
  | cons c w ih =>
    rw [run_cons]
    apply ih
    rw [step]
    split
    · simp
    · next hescaped =>
      split
      · next hquoted =>
        split
        · simp [hquoted]
        · split <;> simp [hescaped]
      · split <;> simp [hescaped]

theorem plain_of_step (h : q.escaped = true → q.quoted = true)
    (hc : c ≠ quote) (hplain : (q.step c).plain = true) :
  q.plain = true
  := by
  obtain ⟨quoted, escaped⟩ := q
  cases quoted <;> cases escaped <;> simp_all [step, plain]
  split at hplain <;> simp_all

end Quoting

namespace AngleScan

theorem run_quoting (a : AngleScan) (w : Bytes) :
  (a.run w).quoting = a.quoting.run w
  := by
  induction w generalizing a with
  | nil => rfl
  | cons c w ih =>
    rw [run_cons, ih]
    rfl

theorem run_literal {a : AngleScan} (ha : a.literal = false)
    (h : a.quoting.avoids lbracket w = true) :
  (a.run w).literal = false
  := by
  induction w generalizing a with
  | nil => exact ha
  | cons c w ih =>
    obtain ⟨hc, hw⟩ := Bool.and_eq_true_iff.mp h
    rw [run_cons]
    apply ih _ hw
    have hopens : (a.quoting.plain && c == lbracket) = false := Bool.not_eq_true' _ ▸ hc
    simp [step, hopens, ha]

theorem run_eq (hquoting : Quoting.run {} w = {}) (hliteral : Quoting.avoids lbracket {} w = true) :
  run {} w = {}
  := by
  have hquotes := run_quoting {} w
  have hbrackets := run_literal (a := {}) rfl hliteral
  generalize run {} w = a at hquotes hbrackets
  obtain ⟨quoting, literal⟩ := a
  simp_all

theorem run_bare (hquote : quote ∉ w) (hbracket : lbracket ∉ w) :
  run {} w = {}
  := run_eq (Quoting.run_unquoted hquote) (Quoting.avoids_of_not_mem hbracket {})

theorem run_bracketed (h : (Quoting.run {} (w ++ [rbracket])).plain = true) :
  run {} (w ++ [rbracket]) = {}
  := by
  rw [Quoting.run_append] at h
  have hplain : (Quoting.run {} w).plain = true :=
    Quoting.plain_of_step (Quoting.escaped_quoted (by simp) w) (by decide) h
  have hquotes := run_quoting {} w
  rw [run_append]
  generalize run {} w = a at hquotes
  obtain ⟨quoting, literal⟩ := a
  have hq : quoting = {} := hquotes.trans (Quoting.eq_of_plain hplain)
  subst hq
  rfl

end AngleScan

theorem scan_localPart (h : validateLocalPart utf8 w = .ok ()) :
  AngleScan.run {} w = {}
  := by
  rcases validateLocalPart_eq_ok h with ⟨hdot, -⟩ | ⟨content, rfl, hloop⟩
  · apply AngleScan.run_bare
    · exact hdot.not_mem (by decide) (by decide) (by decide)
    · exact hdot.not_mem (by decide) (by decide) (by decide)
  · obtain ⟨havoids, hrun⟩ := Quoting.run_enclosed (x := lbracket) (by decide) hloop
    exact AngleScan.run_eq hrun havoids

theorem scan_postmaster (h : equalFold w (ascii "Postmaster") = true) :
  AngleScan.run {} w = {}
  := by
  apply AngleScan.run_bare
  · exact not_mem_of_equalFold h (by decide) (by decide)
  · exact not_mem_of_equalFold h (by decide) (by decide)

theorem scan_domain (h : validateDomain utf8 w = .ok ())
    (hplain : (Quoting.run {} w).plain = true) :
  AngleScan.run {} w = {}
  := by
  rcases validateDomain_eq_ok h with ⟨hname, -⟩ | ⟨inside, rfl, -⟩
  · apply AngleScan.run_bare
    · exact hname.not_mem (by decide) (by decide) (by decide)
    · exact hname.not_mem (by decide) (by decide) (by decide)
  · exact AngleScan.run_bracketed hplain

theorem Checked.scan (h : Checked forward utf8 m path) :
  AngleScan.run {} m = {}
  := by
  rcases h.parts with ⟨-, -, -, -, -, hpostmaster⟩ | ⟨hsplit, hdomain, hlocal⟩
  · exact scan_postmaster hpostmaster
  · rcases splitMailbox_eq_ok hsplit with ⟨hd, -⟩ | ⟨domain, hd, heq, -, -, hplain⟩
    · cases hd
    · cases hd
      have hfirst : AngleScan.run {} path.localPart = {} := by
        rcases hlocal with ⟨-, -, hpostmaster⟩ | hlocal
        · exact scan_postmaster hpostmaster
        · exact scan_localPart hlocal
      have hsign : AngleScan.step {} atSign = {} := rfl
      rw [heq, AngleScan.run_append, hfirst, AngleScan.run_cons, hsign, scan_domain hdomain hplain]

theorem Checked.head_ne (h : Checked forward utf8 m path) :
  m.head? ≠ some atSign
  := by
  intro hhead
  rcases h.parts with ⟨-, -, -, -, -, hpostmaster⟩ | ⟨hsplit, -, hlocal⟩
  · exact not_mem_of_equalFold hpostmaster (by decide) (by decide) (List.mem_of_head? hhead)
  · rcases splitMailbox_eq_ok hsplit with ⟨hd, -⟩ | ⟨domain, -, rfl, havoids, -⟩
    · cases hd
    · cases hl : path.localPart with
      | nil =>
        rw [hl] at hlocal
        rcases hlocal with ⟨-, -, hpostmaster⟩ | hlocal
        · cases hpostmaster
        · cases hlocal
      | cons c w =>
        rw [hl] at hhead havoids
        cases hhead
        cases havoids

/-! ### Rendering -/

/-- The keyword in front of a path. -/
def pathKeyword (forward : Bool) : Bytes := if forward then ascii "TO:" else ascii "FROM:"

/-- A path in brackets behind its keyword, and its parameters. -/
def renderPath (forward : Bool) (path : WirePath) : Option Bytes := do
  let texts ← path.params.mapM encodeParam
  some (pathKeyword forward ++ langle :: (path.mailbox ++ rangle :: precede texts))

/-- The path is parsed again from its rendering. -/
def Stable (forward : Bool) (opts : PathOptions) (path : WirePath) : Prop :=
  ∃ argument, renderPath forward path = some argument ∧
    parsePath forward opts argument = .ok path

theorem parsePath_keyword (forward : Bool) (opts : PathOptions) (rest : Bytes) :
  parsePath forward opts (pathKeyword forward ++ langle :: rest) =
    parseBracketed (!forward) forward opts (langle :: rest)
  := by
  cases forward <;> rfl

theorem Delimited.accepted (h : Delimited allowNull forward opts raw suffix path) :
  parseBracketed allowNull forward opts (langle :: (raw ++ rangle :: suffix)) = .ok path
  := by
  have hclose : pathClosingAngle (langle :: (raw ++ rangle :: suffix)) = some (1 + raw.length) :=
    closingAngle_eq_some.mpr ⟨raw, suffix, rfl, h.stays, h.closes, rfl⟩
  have hlength := h.length_le
  rw [parseBracketed, if_neg (by simp), hclose]
  simp only [drop_bracketed, take_bracketed, h.params, bind, Except.bind]
  rw [if_neg (by omega)]
  rcases h.path with ⟨rfl, rfl, hpath⟩ | ⟨hne, hvalid, hadmitted, m, hroute, hparse⟩
  · exact congrArg Except.ok hpath.symm
  · have hhigh : (!opts.smtpUTF8 && hasHighByte raw) = false := by
      rcases hadmitted with hutf8 | hlow
      · simp [hutf8]
      · simp [hlow]
    rw [if_neg (by simpa using hne), if_neg (by simp [hvalid]), if_neg (by simp [hhigh]), hroute]
    exact hparse

theorem Delimited.reduce {after : Bytes} (h : Delimited allowNull forward opts raw suffix path)
    (hstays : AngleScan.stays {} path.mailbox = true)
    (hafter : parsePathParams after = .ok path.params) :
  Delimited allowNull forward opts path.mailbox after path
  := by
  rcases h.path with ⟨rfl, hallow, hpath⟩ | ⟨hne, -, -, m, hroute, hparse⟩
  · have hmailbox : path.mailbox = [] := by rw [hpath]
    rw [hmailbox]
    exact ⟨rfl, rfl, h.length_le, hafter, .inl ⟨rfl, hallow, hpath⟩⟩
  · have hnull := (parseMailbox_eq_ok hparse).1.null
    obtain rfl := (parseMailbox_eq_ok hparse).1.mailbox
    obtain ⟨hchecked, hvalid, hadmitted, -⟩ := h.mailbox hnull
    obtain ⟨route, hwritten⟩ := h.written hnull
    refine ⟨hstays, by rw [hchecked.scan]; rfl, ?_, hafter, .inr ⟨?_, hvalid, hadmitted, ?_⟩⟩
    · have hlength := h.length_le
      rw [hwritten, List.length_append] at hlength
      omega
    · exact (discardSourceRoute_eq_ok hne hroute).1
    · refine ⟨path.mailbox, ?_, hparse⟩
      rw [discardSourceRoute, if_pos (by simpa using hchecked.head_ne)]

theorem Delimited.ends (h : Delimited allowNull forward opts raw suffix path) :
  (∃ route, raw = route ++ path.mailbox) ∧ AngleScan.run {} path.mailbox = {}
  := by
  cases hnull : path.null with
  | true =>
    rcases h.path with ⟨rfl, -, hpath⟩ | ⟨-, -, -, m, -, hparse⟩
    · have hmailbox : path.mailbox = [] := by rw [hpath]
      rw [hmailbox]
      exact ⟨⟨[], rfl⟩, rfl⟩
    · rw [(parseMailbox_eq_ok hparse).1.null] at hnull
      cases hnull
  | false => exact ⟨h.written hnull, (h.mailbox hnull).1.scan⟩

theorem stays_of_stable (h : Stable forward opts path) :
  AngleScan.stays {} path.mailbox = true
  := by
  obtain ⟨argument, hrender, hparse⟩ := h
  obtain ⟨texts, -, hargument⟩ := Option.bind_eq_some_iff.mp hrender
  cases hargument
  rw [parsePath_keyword] at hparse
  obtain ⟨raw, suffix, heq, hdelimited⟩ := parseBracketed_eq_ok hparse
  obtain ⟨⟨route, rfl⟩, -⟩ := hdelimited.ends
  -- the mailbox begins the brackets, and whatever is in them is at least as long
  have hshort : path.mailbox <+: path.mailbox ++ rangle :: precede texts := List.prefix_append _ _
  have hlong : route ++ path.mailbox <+: path.mailbox ++ rangle :: precede texts := by
    rw [(List.cons.inj heq).2]
    exact List.prefix_append _ _
  obtain ⟨rest, hrest⟩ := List.prefix_of_prefix_length_le hshort hlong (by simp)
  have hstays := hdelimited.stays
  rw [← hrest, AngleScan.stays_append, Bool.and_eq_true] at hstays
  exact hstays.1

/-- A path that is accepted is parsed again from its rendering if and only if the scan for the closing
bracket, begun at its mailbox, stays in the mailbox to its end.  This also decides whether the
mailbox is delimited without its route as it is behind it. -/
theorem pathStable_iff {forward : Bool} {opts : PathOptions} {argument : Bytes} {path : WirePath}
    (h : parsePath forward opts argument = .ok path) :
  (∃ before after, argument = before ++ path.mailbox ++ rangle :: after) ∧
  (Stable forward opts path ↔ AngleScan.stays {} path.mailbox = true) ∧
  ∀ after, pathClosingAngle (langle :: (path.mailbox ++ rangle :: after)) =
      some (1 + path.mailbox.length) ↔ AngleScan.stays {} path.mailbox = true
  := by
  obtain ⟨before, raw, suffix, rfl, hdelimited⟩ := parsePath_eq_ok h
  obtain ⟨⟨route, hroute⟩, hscan⟩ := hdelimited.ends
  refine ⟨⟨before ++ langle :: route, suffix, by simp [hroute]⟩, ⟨stays_of_stable, ?_⟩, ?_⟩
  · intro hstays
    obtain ⟨texts, hencode, hparams⟩ := parsePathParams_precede hdelimited.params
    refine ⟨pathKeyword forward ++ langle :: (path.mailbox ++ rangle :: precede texts), ?_, ?_⟩
    · rw [renderPath, hencode]
      rfl
    · rw [parsePath_keyword]
      exact (hdelimited.reduce hstays hparams).accepted
  · intro after
    constructor
    · intro hclose
      obtain ⟨v, rest, heq, hstays, -, hlength⟩ := closingAngle_eq_some.mp hclose
      rw [List.tail_cons] at heq
      obtain ⟨rfl, -⟩ := List.append_inj heq (by omega)
      exact hstays
    · intro hstays
      exact closingAngle_eq_some.mpr
        ⟨path.mailbox, after, rfl, hstays, by rw [hscan]; rfl, rfl⟩

/-- A quoted local part with an angle bracket, behind a source route. -/
theorem pathStable_iff_quoted :
  Stable false {} { mailbox := ascii "\">\"@b", localPart := ascii "\">\"", domain := ascii "b",
                    params := [⟨ascii "SIZE", ascii "1"⟩, ⟨ascii "BODY", ascii "7BIT"⟩] }
  := by
  have h : parsePath false {} (ascii "from: <@c,@d:\">\"@b>  SIZE=1 BODY=7BIT ") =
      .ok { mailbox := ascii "\">\"@b", localPart := ascii "\">\"", domain := ascii "b",
            params := [⟨ascii "SIZE", ascii "1"⟩, ⟨ascii "BODY", ascii "7BIT"⟩] } := by
    decide +kernel
  exact (pathStable_iff h).2.1.mpr (by decide)

/-- The route holds a quote in its literal, so that the scan reads the quotes of the mailbox the other
way round, and the bracket in the zone is not the closing one. -/
theorem unstable_accepted :
  ∃ path, parsePath false {} (ascii "FROM:<@[a:\"]:\"a\"@[IPv6:::1%x]>\"]\\\"\"]>") = .ok path ∧
    ¬ Stable false {} path ∧
    pathClosingAngle (langle :: (path.mailbox ++ [rangle])) ≠ some (1 + path.mailbox.length)
  := by
  have h : parsePath false {} (ascii "FROM:<@[a:\"]:\"a\"@[IPv6:::1%x]>\"]\\\"\"]>") =
      .ok { mailbox := ascii "\"a\"@[IPv6:::1%x]>\"]\\\"\"]", localPart := ascii "\"a\"",
            domain := ascii "[IPv6:::1%x]>\"]\\\"\"]" } := by
    decide +kernel
  refine ⟨_, h, ?_, by decide⟩
  intro hstable
  exact absurd (stays_of_stable hstable) (by decide)

end GoSmtp
