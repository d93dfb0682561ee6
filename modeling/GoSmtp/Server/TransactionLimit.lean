import GoSmtp.Server.Drift
import GoSmtp.Limits
import GoSmtp.Server.Options
import GoSmtp.Server.Framing

/-!
# The limit of transactions

A session may announce limits.  The one of transactions is lowered to the maximum of the server
before it is announced, and MAIL commands are counted against it as long as the session lasts.
-/

namespace GoSmtp

/-! ### The announced limits -/

/-- The entry of a known limit. -/
def limitEntry (name : Bytes) (n : UInt32) : List Bytes :=
  if n ≠ 0 then [name ++ [equals] ++ itoa n.toNat] else []

def formatLimits (l : Limits) : Bytes :=
  joinFields (limitEntry (ascii "MAILMAX") l.mailMax ++ limitEntry (ascii "RCPTMAX") l.rcptMax ++
    limitEntry (ascii "RCPTDOMAINMAX") l.rcptDomainMax ++ if l.extra.isEmpty then [] else [l.extra])

inductive LimitsProblem where
  | exceedsSixDigits (name : Bytes)
  | spacing
  | limitName (i : Nat)
  | duplicates (i : Nat) (name : Bytes)
  | limitValue (i : Nat)
  deriving DecidableEq, Repr

/-- The problems of the entries that are kept, of which the next is the `i`-th. -/
def validateExtra (seen : List Bytes) (i : Nat) : List Bytes → List LimitsProblem
  | [] => []
  | field :: fields =>
    let (name, value) := cutEquals field
    if !validLimitName name then .limitName i :: validateExtra seen (i + 1) fields
    else if toUpper name ∈ seen then
      .duplicates i (toUpper name) :: validateExtra seen (i + 1) fields
    else
      (if value.any (!validLimitValue ·) then [.limitValue i] else []) ++
        validateExtra (toUpper name :: seen) (i + 1) fields

/-- The part of `validateExtensionSession` about limits. -/
def validateLimits (l : Limits) : List LimitsProblem :=
  exceeds (ascii "MAILMAX") l.mailMax ++ exceeds (ascii "RCPTMAX") l.rcptMax ++
    exceeds (ascii "RCPTDOMAINMAX") l.rcptDomainMax ++
    (if joinFields (stringsFields l.extra) ≠ l.extra then [.spacing] else []) ++
    validateExtra knownLimits 0 (stringsFields l.extra)
  where
  /-- A limit has six digits at most. -/
  exceeds (name : Bytes) (n : UInt32) : List LimitsProblem :=
    if n > 999999 then [.exceedsSixDigits name] else []

/-- The part of `newCommandSession` about limits: how many transactions a session may have, and the
limits it announces. -/
def effectiveLimits (maxTransactions : Nat) (l : Limits) : Nat × Limits :=
  let n := if l.mailMax ≠ 0 ∧ l.mailMax.toNat < maxTransactions then l.mailMax.toNat
    else maxTransactions
  (n, { l with mailMax := n.toUInt32 })

theorem extras_of_validateExtra {seen : List Bytes} {i : Nat} {fields : List Bytes}
    (hseen : ∀ name ∈ knownLimits, name ∈ seen) (h : validateExtra seen i fields = []) :
  ∀ f ∈ fields, IsExtra f
  := by
  induction fields generalizing seen i with
  | nil => exact List.forall_mem_nil _
  | cons f fs ih =>
    simp only [validateExtra] at h
    split at h
    · cases h
    · next hname =>
      split at h
      · cases h
      · next hunseen =>
        obtain ⟨hvalue, hrest⟩ := List.append_eq_nil_iff.mp h
        refine List.forall_mem_cons.mpr ⟨⟨by simpa using hname, ?_, ?_⟩, ?_⟩
        · simpa using hvalue
        · exact fun hknown => hunseen (hseen _ hknown)
        · exact ih (fun name hname => List.mem_cons_of_mem _ (hseen name hname)) hrest

/-! ### Known limits -/

theorem parseLimit_itoa {n : UInt32} (hpos : n ≠ 0) (hle : n ≤ 999999) :
  parseLimit (itoa n.toNat) = n
  := by
  have hlt : n.toNat < 10 ^ 6 := by
    have := UInt32.le_iff_toNat_le.mp hle
    simp at this
    omega
  have hzero : 0 < n.toNat := by
    apply Nat.pos_of_ne_zero
    simpa [← UInt32.toNat_inj] using hpos
  have hlength := (itoa_length_le (n := n.toNat) (k := 6) (by decide)).mpr hlt
  rw [parseLimit, if_neg, parseUint_itoa (by omega)]
  · simp only [show n.toNat < 2 ^ 32 from n.toNat_lt, if_true]
    simp
  · simp [itoa_ne_nil, head_itoa hzero]
    omega

theorem validLimitValue_itoa (n : Nat) :
  validLimitValue (itoa n) = true
  := by
  have hdigits : ∀ c ∈ itoa n, ((0x21 ≤ c && c ≤ 0x3a) || (0x3c ≤ c && c ≤ 0x7e)) = true := by
    intro c hc
    obtain ⟨hlow, hhigh⟩ := itoa_digits (Int.natCast_nonneg n) hc
    simp only [UInt8.le_iff_toNat_le, Bool.or_eq_true, Bool.and_eq_true, decide_eq_true_eq] at *
    simp at *
    omega
  simp [validLimitValue, itoa_ne_nil, List.all_eq_true.mpr hdigits]

theorem add_entry {name : Bytes} (hname : validLimitName name = true) (hequals : equals ∉ name)
    {n : UInt32} (hpos : n ≠ 0) (hle : n ≤ 999999) (result : Limits) :
  result.add (name ++ [equals] ++ itoa n.toNat)
    = if toUpper name = ascii "MAILMAX" then .ok { result with mailMax := n }
      else if toUpper name = ascii "RCPTMAX" then .ok { result with rcptMax := n }
      else if toUpper name = ascii "RCPTDOMAINMAX" then .ok { result with rcptDomainMax := n }
      else .ok { result with extra := extend result.extra (name ++ [equals] ++ itoa n.toNat) }
  := by
  simp only [Limits.add, cutEquals_append hequals, hname, validLimitValue_itoa, parseLimit_itoa hpos hle,
    orElse, if_pos hpos, Option.any_some, Option.map_some, Option.getD_some, Bool.not_true,
    Bool.or_false, Bool.false_eq_true, if_false]

theorem foldlM_limitEntry {name : Bytes} {n : UInt32} {result : Limits} (result' : Limits)
    (hzero : n = 0 → result' = result)
    (hadd : n ≠ 0 → result.add (name ++ [equals] ++ itoa n.toNat) = .ok result')
    (rest : List Bytes) :
  (limitEntry name n ++ rest).foldlM Limits.add result = rest.foldlM Limits.add result'
  := by
  by_cases hn : n = 0
  · obtain rfl := hzero hn
    rw [limitEntry, if_neg (not_not.mpr hn), List.nil_append]
  · rw [limitEntry, if_pos hn, List.singleton_append, List.foldlM_cons, hadd hn]
    rfl

theorem foldlM_entries {l : Limits} (hmail : l.mailMax ≤ 999999) (hrcpt : l.rcptMax ≤ 999999)
    (hdomain : l.rcptDomainMax ≤ 999999) (rest : List Bytes) :
  (limitEntry (ascii "MAILMAX") l.mailMax ++ limitEntry (ascii "RCPTMAX") l.rcptMax ++
      limitEntry (ascii "RCPTDOMAINMAX") l.rcptDomainMax ++ rest).foldlM Limits.add {}
    = rest.foldlM Limits.add { l with extra := [] }
  := by
  have hnames : toUpper (ascii "RCPTMAX") ≠ ascii "MAILMAX" ∧
      toUpper (ascii "RCPTDOMAINMAX") ≠ ascii "MAILMAX" ∧
      toUpper (ascii "RCPTDOMAINMAX") ≠ ascii "RCPTMAX" := by decide
  rw [List.append_assoc, List.append_assoc,
    foldlM_limitEntry { mailMax := l.mailMax },
    foldlM_limitEntry { mailMax := l.mailMax, rcptMax := l.rcptMax },
    foldlM_limitEntry { l with extra := [] }]
  · intro h
    rw [h]
  · intro h
    rw [add_entry (by decide) (by decide) h hdomain, if_neg hnames.2.1, if_neg hnames.2.2]
    rfl
  · intro h
    rw [h]
  · intro h
    rw [add_entry (by decide) (by decide) h hrcpt, if_neg hnames.1]
    rfl
  · intro h
    rw [h]
  · intro h
    rw [add_entry (by decide) (by decide) h hmail]
    rfl

theorem limitEntry_visible {name : Bytes} (hname : name.all visible = true) (n : UInt32) :
  ∀ f ∈ limitEntry name n, f ≠ [] ∧ f.all visible = true
  := by
  intro f hf
  rw [limitEntry] at hf
  split at hf
  · obtain rfl := List.mem_singleton.mp hf
    have hdigits : (itoa n.toNat).all visible = true := by
      rw [List.all_eq_true]
      intro c hc
      obtain ⟨hlow, hhigh⟩ := itoa_digits (Int.natCast_nonneg _) hc
      simp only [visible, UInt8.le_iff_toNat_le, Bool.and_eq_true, decide_eq_true_eq] at *
      simp at *
      omega
    have hequals : visible equals = true := by decide
    simp [hname, hdigits, hequals]
  · cases hf

theorem parseLimitsParam_formatLimits {l : Limits} (h : validateLimits l = []) :
  parseLimitsParam (formatLimits l) = .ok l
  := by
  simp only [validateLimits, validateLimits.exceeds, List.append_eq_nil_iff, ite_eq_right_iff,
    reduceCtorEq, imp_false, not_not] at h
  obtain ⟨⟨⟨⟨hmail, hrcpt⟩, hdomain⟩, hjoin⟩, hextra⟩ := h
  have hextras := extras_of_validateExtra (fun _ => id) hextra
  have hwords : ∀ f ∈ stringsFields l.extra, f ≠ [] ∧ f.all visible = true := fun f hf =>
    visible_of_valid (hextras f hf).name (hextras f hf).value
  let entries := limitEntry (ascii "MAILMAX") l.mailMax ++
    limitEntry (ascii "RCPTMAX") l.rcptMax ++
    limitEntry (ascii "RCPTDOMAINMAX") l.rcptDomainMax
  have hformat : formatLimits l = joinFields (entries ++ stringsFields l.extra) := by
    rw [formatLimits]
    by_cases hempty : l.extra = []
    · simp [hempty, entries, show stringsFields [] = [] from rfl]
    · have hne : stringsFields l.extra ≠ [] := by
        intro hnil
        rw [hnil] at hjoin
        exact hempty hjoin.symm
      rw [if_neg (by simpa using hempty), ← joinFields_append entries hne, hjoin]
  have hall : ∀ f ∈ entries ++ stringsFields l.extra, f ≠ [] ∧ f.all visible = true := by
    simp only [entries, List.forall_mem_append]
    exact ⟨⟨⟨limitEntry_visible (by decide) _, limitEntry_visible (by decide) _⟩,
      limitEntry_visible (by decide) _⟩, hwords⟩
  have hfields : stringsFields (formatLimits l) = entries ++ stringsFields l.extra := by
    rw [hformat, stringsFields_joinFields hall]
  have hread : (entries ++ stringsFields l.extra).foldlM Limits.add {} = .ok l := by
    rw [foldlM_entries (by simpa using hmail) (by simpa using hrcpt) (by simpa using hdomain),
      foldlM_add hextras, foldl_extend_nil fun f hf => (hwords f hf).1, hjoin]
  rw [parseLimitsParam]
  split
  · next hempty =>
    rw [← hfields, List.isEmpty_iff.mp hempty] at hread
    exact hread
  · simp only [hfields, ← hformat, ne_eq, not_true_eq_false, if_false, hread]

/-- The limit of transactions that is announced: the maximum of the server, or the smaller limit of
the session. -/
def announcedMailMax (maxTransactions : Nat) (l : Limits) : Nat :=
  if l.mailMax = 0 then maxTransactions else min l.mailMax.toNat maxTransactions

theorem announcedMailMax_le (maxTransactions : Nat) (l : Limits) :
  announcedMailMax maxTransactions l ≤ maxTransactions
  := by
  rw [announcedMailMax]
  split
  · exact Nat.le_refl _
  · exact Nat.min_le_right _ _

theorem effectiveLimits_eq (maxTransactions : Nat) (l : Limits) :
  effectiveLimits maxTransactions l = (announcedMailMax maxTransactions l,
    { l with mailMax := (announcedMailMax maxTransactions l).toUInt32 })
  := by
  have heq : (if l.mailMax ≠ 0 ∧ l.mailMax.toNat < maxTransactions then l.mailMax.toNat
      else maxTransactions) = announcedMailMax maxTransactions l := by
    rw [announcedMailMax]
    by_cases hzero : l.mailMax = 0
    · simp [hzero]
    · simp only [hzero, ne_eq, not_false_eq_true, true_and, if_false]
      split <;> omega
  rw [effectiveLimits, heq]

theorem validateLimits_announced {n : Nat} (hn : n ≤ 999999) {l : Limits}
    (hl : validateLimits l = []) :
  validateLimits { l with mailMax := n.toUInt32 } = []
  := by
  have hle : ¬ 999999 < n.toUInt32 := by
    rw [UInt32.lt_iff_toNat_lt]
    simp
    omega
  simp only [validateLimits, List.append_eq_nil_iff] at hl ⊢
  refine ⟨⟨⟨⟨?_, hl.1.1.1.2⟩, hl.1.1.2⟩, hl.1.2⟩, hl.2⟩
  rw [validateLimits.exceeds, if_neg hle]

namespace Server.Session

variable {φ ω α : Type}

/-! ### Counting -/

/-- How many MAIL commands were decoded. -/
def mails (s : Session φ ω) : Nat := s.commands.countP fun c => Verb.ofSpelling c.verb = .mail

/-- The reply to MAIL beyond the limit. -/
def limitReached : WireReply :=
  { code := 421, enhanced := ⟨4, 7, 0, []⟩, text := ascii "Transaction limit reached" }

/-- MAIL commands are counted as they are decoded. -/
def Metered (s : Session φ ω) : Prop := s.mailAttempts = s.mails

theorem Metered.of_ledger {s s' : Session φ ω} (h : s.Metered) (heq : s'.ledger = s.ledger) :
  s'.Metered ∧ s'.mails = s.mails
  := by
  obtain ⟨hattempts, hcommands⟩ := Prod.ext_iff.mp heq
  have hmails : s'.mails = s.mails := congrArg (List.countP _) hcommands
  refine ⟨?_, hmails⟩
  rw [Metered, hmails, ← h]
  exact hattempts

section Turns

variable {cfg : Config} {env : Env φ ω} {s : Session φ ω}

theorem ledger_finishTurn (action : CommandAction) :
  Exec.Keeps ledger (finishTurn env action)
  := aloof_ledger.finishTurn env action

theorem execute_beyond {c : Command} (hmail : Verb.ofSpelling c.verb = .mail)
    (hbeyond : cfg.maxTransactions ≤ s.mailAttempts) :
  execute cfg env c s
    = (do
        writeReply env limitReached
        pure ⟨true, true⟩ : Call φ ω CommandAction) { s with mailAttempts := s.mailAttempts + 1 }
  := by
  have hlt : cfg.maxTransactions < s.mailAttempts + 1 := Nat.lt_succ_of_le hbeyond
  simp [execute, hmail, Bind.bind, Exec.update, Exec.read, hlt, limitReached]

theorem execute_within {c : Command} (hmail : Verb.ofSpelling c.verb = .mail)
    (hwithin : s.mailAttempts < cfg.maxTransactions) :
  execute cfg env c s
    = dispatch cfg env .mail c { s with mailAttempts := s.mailAttempts + 1 }
  := by
  have hle : ¬ cfg.maxTransactions < s.mailAttempts + 1 := Nat.not_lt.mpr hwithin
  simp [execute, hmail, Bind.bind, Exec.update, Exec.read, hle]

theorem ledger_turn_error {e : CommandError φ} {rest : Feed UInt8 φ}
    (hread : readCommand s.feed = (.error e, rest)) :
  (turn cfg env s).2.ledger = s.ledger
  := by
  apply wp_state (I := fun s' : Session φ ω => s'.ledger = s.ledger)
  rw [turn, wp_bind, wp_outside, wp_ite]
  refine ⟨fun _ => rfl, fun _ => ?_⟩
  rw [wp_bind]
  apply wp_flushBeforeRead _ fun _ _ => rfl
  intro w
  rw [wp_bind]
  apply wp_await _ fun _ _ => rfl
  intro w'
  simp only [wp_bind, wp_read, wp_update, hread]
  have hanswer : Exec.Keeps ledger (do
      let action ← handleCommandReadError env e
      finishTurn env action) :=
    Exec.Keeps.bind ((aloof_ledger.walk env).handleCommandReadError e) fun _ => ledger_finishTurn _
  split
  · rfl
  · next h =>
    cases h
    exact wp_of_state (hanswer _)
  · next h => cases h

theorem mails_receiving (env : Env φ ω) (s : Session φ ω) (c : Command) (rest : Feed UInt8 φ) :
  (s.receiving env c rest).mails
    = s.mails + if Verb.ofSpelling c.verb = .mail then 1 else 0
  := by
  simp [receiving, mails, commands, LogEvent.command, List.countP_cons]

theorem mails_le_of_initial {log : List LogEvent} (h : s.log <+: log) :
  s.mails ≤ (log.filterMap LogEvent.command).countP fun c => Verb.ofSpelling c.verb = .mail
  := (h.sublist.filterMap _).countP_le

theorem wp_obey {c : Command} {m : Call φ ω CommandAction} {s' : Session φ ω}
    (h : execute cfg env c s = m s') {Q : Bool → Session φ ω → Prop}
    {E : Option (SessionError φ) → Session φ ω → Prop} :
  wp (obey cfg env c) Q E s ↔ wp (m >>= finishTurn env) Q E s'
  := by
  simp only [wp, obey, Bind.bind, h]

/-- The turn in which MAIL beyond the limit is decoded: it is refused and the loop ends, unless the
turn fails before. -/
theorem wp_turn_beyond {c : Command} {rest : Feed UInt8 φ}
    (hread : readCommand s.feed = (.ok c, rest)) (hmail : Verb.ofSpelling c.verb = .mail)
    (hbeyond : cfg.maxTransactions ≤ s.mailAttempts) :
  wp (turn cfg env)
    (fun on s' => on = false ∧ s'.log = s.log ++ [.decoded c, .reply limitReached])
    (fun _ s' => s'.log <+: s.log ++ [.decoded c, .reply limitReached]) s
  := by
  apply wp_turn_command hread
  · exact fun _ _ => List.prefix_append _ _
  · rw [wp_obey (execute_beyond (s := s.receiving env c rest) hmail hbeyond), wp_bind,
      wp_bind]
    have hdecoded : (s.receiving env c rest).log = s.log ++ [.decoded c] := rfl
    apply wp_writeReply
    · intro w
      have hlog : (s.receiving env c rest).log ++ [.reply limitReached]
          = s.log ++ [.decoded c, .reply limitReached] := by simp [hdecoded]
      rw [wp_pure, finishTurn]
      simp only [Bool.or_self, if_true, Bool.not_true]
      rw [wp_bind]
      apply wp_transport
      · exact fun _ => ⟨rfl, hlog⟩
      · exact fun _ _ => hlog ▸ List.prefix_rfl
    · intro _ _
      exact ⟨[.reply limitReached], by simp [hdecoded]⟩

theorem metered_turn (h : s.Metered) (hle : s.mails ≤ cfg.maxTransactions) :
  (turn cfg env s).2.mails ≤ cfg.maxTransactions + 1 ∧
    ((turn cfg env s).1 = .ok true →
      (turn cfg env s).2.Metered ∧ (turn cfg env s).2.mails ≤ cfg.maxTransactions)
  := by
  have hsame {m : Call φ ω Bool} {s₀ : Session φ ω} (h₀ : s₀.Metered)
      (hle₀ : s₀.mails ≤ cfg.maxTransactions) (hm : (m s₀).2.ledger = s₀.ledger) :
      wp m (fun on s' => s'.mails ≤ cfg.maxTransactions + 1 ∧
          (on = true → s'.Metered ∧ s'.mails ≤ cfg.maxTransactions))
        (fun _ s' => s'.mails ≤ cfg.maxTransactions + 1) s₀ := by
    obtain ⟨hmetered, hmails⟩ := h₀.of_ledger hm
    rw [← hmails] at hle₀
    apply wp_mono (wp_of_state (I := fun s' => s'.Metered ∧ s'.mails ≤ cfg.maxTransactions)
      ⟨hmetered, hle₀⟩)
    · exact fun on s' h' => ⟨Nat.le_succ_of_le h'.2, fun _ => h'⟩
    · exact fun _ s' h' => Nat.le_succ_of_le h'.2
  have hturn : wp (turn cfg env) (fun on s' => s'.mails ≤ cfg.maxTransactions + 1 ∧
        (on = true → s'.Metered ∧ s'.mails ≤ cfg.maxTransactions))
      (fun _ s' => s'.mails ≤ cfg.maxTransactions + 1) s := by
    rcases hread : readCommand s.feed with ⟨e | c, rest⟩
    · exact hsame h hle (ledger_turn_error hread)
    by_cases hmail : Verb.ofSpelling c.verb = .mail
    · have hmails := mails_receiving env s c rest
      rw [if_pos hmail] at hmails
      rcases Nat.lt_or_ge s.mails cfg.maxTransactions with hwithin | hbeyond
      · have hattempts : (s.receiving env c rest).mailAttempts < cfg.maxTransactions := h ▸ hwithin
        apply wp_turn_command hread fun _ _ => Nat.le_succ_of_le hle
        rw [wp_obey (execute_within hmail hattempts)]
        apply hsame
        · exact (congrArg (· + 1) h).trans hmails.symm
        · exact Nat.le_trans (Nat.le_of_eq hmails) hwithin
        · exact (aloof_ledger.dispatch cfg env _ c).bind (fun _ => ledger_finishTurn _) _
      · have hbound {s' : Session φ ω}
            (hlog : s'.log <+: s.log ++ [.decoded c, .reply limitReached]) :
            s'.mails ≤ cfg.maxTransactions + 1 := by
          apply Nat.le_trans (mails_le_of_initial hlog)
          simp only [List.filterMap_append, List.countP_append]
          apply Nat.add_le_add hle
          simp [LogEvent.command, hmail]
        apply wp_mono (wp_turn_beyond hread hmail (h ▸ hbeyond))
        · rintro on s' ⟨rfl, hlog⟩
          exact ⟨hbound (hlog ▸ List.prefix_rfl), by simp⟩
        · exact fun _ s' hlog => hbound hlog
    · have hmails := mails_receiving env s c rest
      rw [if_neg hmail] at hmails
      have hexecute : execute cfg env c (s.receiving env c rest)
          = dispatch cfg env (Verb.ofSpelling c.verb) c (s.receiving env c rest) := by
        simp [execute, hmail]
      apply wp_turn_command hread fun _ _ => Nat.le_succ_of_le hle
      rw [wp_obey hexecute]
      apply hsame
      · exact h.trans hmails.symm
      · exact Nat.le_trans (Nat.le_of_eq hmails) hle
      · exact (aloof_ledger.dispatch cfg env _ c).bind (fun _ => ledger_finishTurn _) _
  apply wp_elim hturn (P := fun x => x.2.mails ≤ cfg.maxTransactions + 1 ∧
    (x.1 = .ok true → x.2.Metered ∧ x.2.mails ≤ cfg.maxTransactions))
  · exact fun on s' h' => ⟨h'.1, fun hon => h'.2 (Outcome.ok.inj hon)⟩
  · exact fun _ _ h' => ⟨h', by simp⟩
  · exact fun _ h' => ⟨h', by simp⟩

theorem metered_serve (h : s.Metered) (hle : s.mails ≤ cfg.maxTransactions) (n : Nat) :
  (serve cfg env n s).1.mails ≤ cfg.maxTransactions + 1 ∧
    ((serve cfg env n s).2 = true →
      (serve cfg env n s).1.Metered ∧ (serve cfg env n s).1.mails ≤ cfg.maxTransactions)
  := by
  have hclose (s' : Session φ ω) : (close env s').2.mails = s'.mails := by
    have hledger : (close env s').2.ledger = s'.ledger := aloof_ledger.close env s'
    exact congrArg (List.countP _) (congrArg Prod.snd hledger)
  induction n generalizing s with
  | zero => exact ⟨Nat.le_succ_of_le hle, fun _ => ⟨h, hle⟩⟩
  | succ n ih =>
    have hturn : (turn cfg env s).2.mails ≤ _ ∧ (_ → _ ∧ _) := metered_turn h hle
    rw [serve]
    rcases hx : turn cfg env s with ⟨(_ | _) | e | _, s'⟩ <;> rw [hx] at hturn
    · exact ⟨(hclose s').symm ▸ hturn.1, by simp⟩
    · obtain ⟨hmetered, hmails⟩ := hturn.2 rfl
      exact ih hmetered hmails
    · exact ⟨(hclose s').symm ▸ hturn.1, by simp⟩
    · exact ⟨(hclose s').symm ▸ hturn.1, by simp⟩

end Turns

/-- The limits that a session announces are those that it has, with the limit of transactions lowered
to the maximum of the server.  It obeys no more MAIL commands than that: the next one is refused, and
nothing else is done. -/
theorem limits_honest {e : Surroundings} {options : ServerOptions} {server : Server}
    (hserver : newServer e options = .ok server) {l : Limits} (hl : validateLimits l = []) :
  let effective := effectiveLimits server.config.maxTransactions l
  let announced := if l.mailMax = 0 then server.config.maxTransactions
    else min l.mailMax.toNat server.config.maxTransactions
  parseLimitsParam (formatLimits effective.2) = .ok { l with mailMax := announced.toUInt32 } ∧
    ∀ (φ ω : Type) (env : Env φ ω) (auth : AuthBackend ω) (manager : SpoolManager) (tls : Bool)
      (feed : Feed UInt8 φ) (world : ω) (n : Nat),
      let cfg := { server.config with maxTransactions := effective.1 }
      let run := after cfg env auth manager tls feed world n
      run.1.mails ≤ announced + 1 ∧
        (run.2 = true → run.1.mails ≤ announced ∧
          ∀ c rest, readCommand run.1.feed = (.ok c, rest) → Verb.ofSpelling c.verb = .mail →
            run.1.mails = announced →
            let next := turn cfg (env.withAuth auth) run.1
            next.1 ≠ .ok true ∧
              next.2.log <+: run.1.log ++ [.decoded c, .reply limitReached] ∧
              (next.1 = .ok false → next.2.log = run.1.log ++ [.decoded c, .reply limitReached]))
  := by
  obtain ⟨-, hmax⟩ := newServer_maxTransactions hserver
  have heffective := effectiveLimits_eq server.config.maxTransactions l
  intro effective announced
  have hfirst : effective.1 = announced := congrArg Prod.fst heffective
  have hsecond : effective.2 = { l with mailMax := announced.toUInt32 } :=
    congrArg Prod.snd heffective
  refine ⟨?_, ?_⟩
  · rw [hsecond]
    apply parseLimitsParam_formatLimits
    exact validateLimits_announced (Nat.le_trans (announcedMailMax_le _ l) hmax) hl
  · intro φ ω env auth manager tls feed world n cfg run
    rw [← hfirst]
    have hrun : run.1.mails ≤ cfg.maxTransactions + 1 ∧
        (run.2 = true → run.1.Metered ∧ run.1.mails ≤ cfg.maxTransactions) := by
      have hnew : (Session.new cfg manager tls feed world).Metered := rfl
      exact metered_serve hnew (Nat.zero_le _) n
    refine ⟨hrun.1, fun hopen => ⟨(hrun.2 hopen).2, ?_⟩⟩
    intro c rest hread hmail hmails next
    have hnext : wp (turn cfg (env.withAuth auth)) _ _ run.1 :=
      wp_turn_beyond hread hmail (Nat.le_of_eq (hmails.symm.trans (hrun.2 hopen).1.symm))
    refine wp_elim hnext (P := fun x => x.1 ≠ .ok true ∧
      x.2.log <+: run.1.log ++ [.decoded c, .reply limitReached] ∧
      (x.1 = .ok false → x.2.log = run.1.log ++ [.decoded c, .reply limitReached])) ?_ ?_ ?_
    · rintro on s' ⟨rfl, hlog⟩
      exact ⟨by simp, hlog ▸ List.prefix_rfl, fun _ => hlog⟩
    · exact fun _ s' hlog => ⟨by simp, hlog, by simp⟩
    · exact fun s' hlog => ⟨by simp, hlog, by simp⟩

/-- Five transactions, on a server that allows a hundred. -/
theorem limits_honest_five :
  let l : Limits := { mailMax := 5, extra := ascii "SIZES=1,2 FAST" }
  parseLimitsParam (formatLimits (effectiveLimits 100 l).2) = .ok l
  := (limits_honest newServer_chunked.2 (l := { mailMax := 5, extra := ascii "SIZES=1,2 FAST" })
    (by decide)).1

/-! ### What a session does not take back -/

/-- The mode stays, TLS is not given up, attempts at MAIL are not forgotten, and an end is final. -/
structure Ratchet (s s' : Session φ ω) : Prop where
  mode : s'.state.mode = s.state.mode
  tls : s.state.tls = true → s'.state.tls = true
  attempts : s.mailAttempts ≤ s'.mailAttempts
  closed : s.closed = true → s'.closed = true

theorem ratchet_same {s s' : Session φ ω} (hstate : s'.state = s.state)
    (hattempts : s'.mailAttempts = s.mailAttempts) (hclosed : s'.closed = s.closed) :
  Ratchet s s'
  := ⟨by rw [hstate], by simp [hstate], hattempts.ge, by simp [hclosed]⟩

instance : IsPreorder (Session φ ω) Ratchet where
  refl _ := ratchet_same rfl rfl rfl
  trans _ _ _ h h' := ⟨h'.mode.trans h.mode, fun htls => h'.tls (h.tls htls),
    h.attempts.trans h'.attempts, fun hclosed => h'.closed (h.closed hclosed)⟩

theorem tls_transition {state state' : ProtocolState} {event : StateEvent}
    (h : state.transition event = some state') (htls : state.tls = true) :
  state'.tls = true
  := by
  rw [ProtocolState.transition] at h
  split at h
  · cases h
    cases event <;> first | rfl | exact htls
  · cases h

theorem drift_ratchet :
  Drift (fun _ => True) (Ratchet : Session φ ω → Session φ ω → Prop)
  where
  ordinary := trivial
  own _ hown := by
    cases hown with
    | state _ h => exact ⟨ProtocolState.mode_transition h, tls_transition h, Nat.le_refl _, id⟩
    | greeted => exact ⟨rfl, id, Nat.le_refl _, id⟩
    | closed => exact ⟨rfl, id, Nat.le_refl _, fun _ => rfl⟩
    | _ => exact ratchet_same rfl rfl rfl
  beyond _ _ _ _ := ratchet_same rfl rfl rfl
  reply _ _ _ := ratchet_same rfl rfl rfl

/-- In no run, however it ends, does a session change its mode, go back from TLS, forget an attempt
at MAIL, be it by RSET, a new greeting or STARTTLS, or open again. -/
theorem ratchet_serve (cfg : Config) (env : Env φ ω) (n : Nat) (s : Session φ ω) :
  Ratchet s (serve cfg env n s).1
  := by
  have haround := (drift_ratchet : Drift _ (Ratchet : Session φ ω → Session φ ω → Prop)).around
  have hrest : Walk.Rest env (Ratchet : Session φ ω → Session φ ω → Prop) :=
    ⟨haround.takeChunk env, haround.await env _, fun _ _ => ratchet_same rfl rfl rfl,
      fun _ => ⟨rfl, id, Nat.le_succ _, id⟩⟩
  have hwalk := drift_ratchet.walk fun _ _ command r source size content s _ =>
    haround.evaluateContent trivial env command r source size content s
  have hclose := drift_ratchet.close trivial env fun _ _ command r source size content s _ =>
    haround.evaluateContent trivial env command r source size content s
  have hturn := hwalk.turn (fun _ => trivial) hrest cfg
  refine (maintains_serve (I := Ratchet s) (F := Ratchet s) (hturn.maintains ?_ id) id ?_
    (refl_of Ratchet s)).1
  · exact fun hstep hs => trans_of Ratchet hs hstep
  · exact fun hs => trans_of Ratchet hs (hclose _)

end Server.Session

end GoSmtp
