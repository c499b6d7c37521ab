import Markup.Checks.Check
import Markup.Html
import Markup.Proofs.Checks.Verdict
import Markup.Proofs.Tree

/-!
# The count of checks

Whatever the tested functions do, as long as what they are called with and what comes of it can be
shown, no check ends with an error: each adds one to the count of checks, and one to the count of
failures and one report if it does not hold (`checks_counted`).  At the end both counts are reported
and the exit status is forced just if some check failed.  A check that is to place its failure in a
caller that is not there is counted as well, but it ends with an error of its own in the place of
its report (`Tally.perform_misplaced`).
-/

namespace Markup.Checks

/-! ## Reports -/

namespace Report

variable {ts : List Term} {o : Outcome}

theorem exists_positions (h : ∀ t ∈ ts, t.Presentable) (before after : String) (i : Nat) :
    ∃ text, positions before after i ts = .ok text := by
  induction ts generalizing i with
  | nil => exact ⟨"", rfl⟩
  | cons t ts ih =>
    obtain ⟨⟨shown, hshown⟩, hrest⟩ := List.forall_mem_cons.mp h
    obtain ⟨rest, hpositions⟩ := ih hrest (i + 1)
    rw [positions, hshown, hpositions]
    exact ⟨_, rfl⟩

theorem exists_keywords {kw : List (String × Term)} (h : ∀ e ∈ kw, e.2.Presentable) :
    ∃ text, keywords kw = .ok text := by
  induction kw with
  | nil => exact ⟨"", rfl⟩
  | cons e kw ih =>
    obtain ⟨⟨shown, hshown⟩, hrest⟩ := List.forall_mem_cons.mp h
    obtain ⟨rest, hkeywords⟩ := ih hrest
    rw [keywords, hshown, hkeywords]
    exact ⟨_, rfl⟩

theorem exists_resultLines (h : o.toTerm.Presentable) : ∃ text, resultLines o = .ok text := by
  cases o with
  | returned v => exact ⟨"", rfl⟩
  | listed items => exact ⟨"", rfl⟩
  | raised r =>
    obtain ⟨arguments, harguments⟩ := exists_positions h.of_error "    exc arg " ": " 0
    rw [resultLines, raisedLines, harguments]
    exact ⟨_, rfl⟩

theorem append_line_ne_empty (text : String) (texts : List String) : text ++ line texts ≠ "" := by
  intro h
  have hlength := congrArg String.length h
  rw [line, Message.lineOfTexts, String.length_append, String.length_append] at hlength
  have hend : "\n".length = 1 := rfl
  have hempty : "".length = 0 := rfl
  omega

end Report

namespace Subject

/-- A report can show what a check was run on. -/
structure Presentable (s : Subject) : Prop where
  args : ∀ t ∈ s.args, t.Presentable
  kw : ∀ e ∈ s.kw, e.2.Presentable

/-- The caller in which a failure is to be placed is there. -/
def Placed (s : Subject) : Prop := ∃ n, s.caller = .ok n

/-- A failure is to be placed some whole number of callers away, and there is no such caller. -/
def Misplaced (s : Subject) : Prop :=
  ∃ n, s.depth.toInt? = some n ∧ placeOf? (s.callers + 2) (n + 2) = none

theorem Misplaced.caller_eq {s : Subject} (h : s.Misplaced) : s.caller = .error .outOfRange := by
  obtain ⟨n, hn, hnone⟩ := h
  rw [caller, hn]
  dsimp only
  rw [hnone]

end Subject

/-- A failure that can be shown is reported. -/
theorem Report.exists_write {s : Subject} {f : Failure} (hs : s.Presentable) (hplaced : s.Placed)
    (hexpected : f.expected.Presentable) (houtcome : f.outcome.toTerm.Presentable) :
    ∃ text, write s f = .ok text ∧ text ≠ "" := by
  obtain ⟨caller, hcaller⟩ := hplaced
  obtain ⟨args, hargs⟩ := exists_positions hs.args "  arg " " = " 0
  obtain ⟨kw, hkw⟩ := exists_keywords hs.kw
  obtain ⟨expected, hexpected⟩ := hexpected
  obtain ⟨more, hmore⟩ := exists_resultLines houtcome
  obtain ⟨outcome, houtcome⟩ := houtcome
  rw [write, hcaller, hargs, hkw, hexpected, houtcome, hmore]
  exact ⟨_, rfl, append_line_ne_empty _ _⟩

/-! ## One check -/

namespace Trial

/-- What came of a check is as expected. -/
def Holds (trial : Trial) : Prop := trial.expectation.Holds trial.outcome

/-- All that a report of a check may have to show can be shown. -/
structure Presentable (trial : Trial) : Prop where
  subject : ∃ s, trial.subject = .ok s ∧ s.Presentable
  expected : trial.expectation.toTerm.Presentable
  outcome : trial.outcome.toTerm.Presentable

/-- If a check does not hold, the caller in which this is to be placed is there. -/
def Placed (trial : Trial) : Prop :=
  ¬ trial.Holds → ∀ s, trial.subject = .ok s → s.Placed

/-- The report of a check that does not hold. -/
def report (trial : Trial) : Except Fault String := do
  Report.write (← trial.subject) (trial.expectation.failure trial.outcome)

/-- A check writes its report if it does not hold, and nothing otherwise. -/
def Reports (trial : Trial) (text : String) : Prop :=
  trial.Holds ∧ text = "" ∨ ¬ trial.Holds ∧ text ≠ "" ∧ trial.report = .ok text

variable {trial : Trial}

theorem exists_report (h : trial.Presentable) (hplaced : ∀ s, trial.subject = .ok s → s.Placed) :
    ∃ text, trial.report = .ok text ∧ text ≠ "" := by
  obtain ⟨s, hs, hsubject⟩ := h.subject
  obtain ⟨text, htext, hne⟩ := Report.exists_write (f := trial.expectation.failure trial.outcome)
    hsubject (hplaced s hs) h.expected h.outcome
  refine ⟨text, ?_, hne⟩
  rw [report, hs]
  exact htext

/-- What came of a check is judged, and rightly so. -/
theorem Presentable.judge_eq (h : trial.Presentable) :
    (trial.Holds → trial.expectation.judge trial.outcome = .ok none) ∧
      (¬ trial.Holds → trial.expectation.judge trial.outcome =
        .ok (some (trial.expectation.failure trial.outcome))) := by
  obtain ⟨b, hadmits, hholds⟩ := Expectation.admits_iff_holds (e := trial.expectation) h.outcome
  rw [Expectation.judge, hadmits]
  constructor
  · intro hyes
    rw [hholds.mpr hyes]
    rfl
  · intro hno
    rw [Bool.eq_false_iff.mpr fun hb => hno (hholds.mp hb)]
    rfl

end Trial

namespace Tally

/-- The counts after a check that wrote some text. -/
def afterReport (t : Tally) (text : String) : Tally :=
  ⟨t.tests + 1, t.failures + if text = "" then 0 else 1⟩

/-- A check that does not hold is counted as a failure before anything of it is reported. -/
theorem settle_of_not_holds {trial : Trial} (h : trial.Presentable) (hno : ¬ trial.Holds)
    (t : Tally) : t.settle trial = (t.miss, trial.report) := by
  obtain ⟨s, hs, -⟩ := h.subject
  rw [settle, h.judge_eq.2 hno, Trial.report, hs]
  rfl

/-- A check counts itself, and its failure with a report if it does not hold. -/
theorem exists_settle {trial : Trial} (h : trial.Presentable) (hplaced : trial.Placed)
    (t : Tally) :
    ∃ text, trial.Reports text ∧ t.enter.settle trial = (t.afterReport text, .ok text) := by
  by_cases hholds : trial.Holds
  · refine ⟨"", .inl ⟨hholds, rfl⟩, ?_⟩
    rw [settle, h.judge_eq.1 hholds]
    rfl
  · obtain ⟨text, htext, hne⟩ := trial.exists_report h (hplaced hholds)
    refine ⟨text, .inr ⟨hholds, hne, htext⟩, ?_⟩
    rw [settle_of_not_holds h hholds, htext, afterReport, if_neg hne]
    rfl

end Tally

/-! ## What is tried -/

namespace Request

variable {w w' : World}

/--
A check is asked for as it has to be: no keyword that is passed on has the name of a parameter of
the check, and the items of an expected sequence can be listed.
-/
def WellFormed (w : World) : Request → Prop
  | .call _ k expected _ c => (∀ e ∈ c.kw, e.1 ∉ k.parameters) ∧
      (k = .sequence → ∃ items, (w.read expected).listed = .ok items)
  | .value .. => True

theorem exists_passedOn {k : Kind} {c : Call Value} (h : ∀ e ∈ c.kw, e.1 ∉ k.parameters) :
    ∃ depth passed, k.passedOn c = .ok (depth, passed) := by
  have hnone : ¬ c.kw.any (k.parameters.contains ·.1) = true := by
    rw [List.any_eq_true]
    rintro ⟨e, he, hname⟩
    exact h e he (List.contains_iff_mem.mp hname)
  rw [Kind.passedOn, if_neg hnone]
  exact ⟨_, _, rfl⟩

theorem exists_expectedItems {k : Kind} {expected : Value}
    (h : k = .sequence → ∃ items, (w.read expected).listed = .ok items) :
    ∃ items, (expectedItems k expected).runIn w = (.ok items, w) := by
  rw [expectedItems]
  split
  · next hk =>
    obtain ⟨items, hitems⟩ := h hk
    refine ⟨Operation.values items, ?_⟩
    rw [Operation.listedItems, Operation.runIn_bind_ok (Operation.runIn_read expected w), hitems]
    rfl
  · exact ⟨[], rfl⟩

/-- No check that is asked for as it has to be is refused. -/
theorem refusal?_eq_none {q : Request} (h : q.WellFormed w) : q.refusal? = none := by
  cases q with
  | value callers description expected actual => rfl
  | call callers k expected f c =>
    obtain ⟨depth, passed, hpassed⟩ := exists_passedOn h.1
    rw [refusal?, hpassed]

/-- Whatever is called, and whatever it raises, something is tried. -/
theorem exists_tried {q : Request} (h : q.WellFormed w) :
    ∃ trial w', q.tried.runIn w = (.ok trial, w') := by
  cases q with
  | value callers description expected actual => exact ⟨_, w, rfl⟩
  | call callers k expected f c =>
    obtain ⟨depth, passed, hpassed⟩ := exists_passedOn h.1
    obtain ⟨items, hitems⟩ := exists_expectedItems h.2
    rw [tried, hpassed, Operation.runIn_bind_ok (Operation.runIn_ofExcept _ w)]
    dsimp only
    rw [Operation.runIn_bind_ok hitems]
    exact ⟨_, _, rfl⟩

/--
Checks are asked for one after the other, each as it has to be in the world that those before it
leave.  What is tried in each can be shown, and the caller in which a failure is to be placed is
there.
-/
def Admits (w : World) : List Request → Prop
  | [] => True
  | q :: qs => q.WellFormed w ∧ ∀ trial w₁, q.tried.runIn w = (.ok trial, w₁) →
      trial.Presentable ∧ trial.Placed ∧ Admits w₁ qs

end Request

/-! ## All checks -/

namespace Tally

variable {w w' : World} {qs : List Request}

/-- The counts after checks that wrote some texts. -/
def afterReports (t : Tally) (texts : List String) : Tally :=
  texts.foldl afterReport t

theorem tests_afterReports (t : Tally) (texts : List String) :
    (t.afterReports texts).tests = t.tests + texts.length := by
  induction texts generalizing t with
  | nil => rfl
  | cons text texts ih =>
    rw [afterReports, List.foldl_cons, ← afterReports, ih, List.length_cons]
    show t.tests + 1 + texts.length = _
    omega

theorem failures_afterReports (t : Tally) (texts : List String) :
    (t.afterReports texts).failures = t.failures + (texts.filter (· ≠ "")).length := by
  induction texts generalizing t with
  | nil => rfl
  | cons text texts ih =>
    rw [afterReports, List.foldl_cons, ← afterReports, ih, afterReport, List.filter_cons]
    by_cases htext : text = ""
    · simp [htext]
    · simp only [htext, ne_eq, not_false_eq_true, decide_true, if_true, if_false, List.length_cons]
      omega

/-- A check that is tried is counted, and then it is settled. -/
theorem run_perform {q : Request} {trial : Trial} (hasked : q.WellFormed w)
    (htried : q.tried.runIn w = (.ok trial, w')) (t : Tally) :
    (t.perform q).run w = (t.enter.settle trial, w') := by
  have hrun : q.tried.run.run w = (.ok trial, w') := htried
  rw [perform, Request.refusal?_eq_none hasked]
  dsimp only
  rw [StateT.run_bind, hrun]
  rfl

/--
A check that does not hold and that names a caller which is not there is counted as a failed one,
and then it ends with an error in the place of its report.
-/
theorem perform_misplaced {q : Request} {trial : Trial} {s : Subject} (hasked : q.WellFormed w)
    (htried : q.tried.runIn w = (.ok trial, w')) (h : trial.Presentable) (hno : ¬ trial.Holds)
    (hs : trial.subject = .ok s) (hmisplaced : s.Misplaced) (t : Tally) :
    (t.perform q).run w = ((⟨t.tests + 1, t.failures + 1⟩, .error .outOfRange), w') := by
  have hreport : trial.report = .error .outOfRange := by
    rw [Trial.report, hs]
    show Report.write s _ = _
    rw [Report.write, hmisplaced.caller_eq]
    rfl
  rw [run_perform hasked htried, settle_of_not_holds h hno, hreport]
  rfl

/-- Each check is counted by what it reports, and none ends with an error. -/
theorem exists_performAll (h : Request.Admits w qs) (t : Tally) :
    ∃ trials reports w', (qs.mapM Request.tried).runIn w = (.ok trials, w') ∧
      List.Forall₂ Trial.Reports trials reports ∧ reports.length = qs.length ∧
      (t.performAll qs).run w = (⟨t.afterReports reports, reports, none⟩, w') := by
  induction qs generalizing w t with
  | nil => exact ⟨[], [], w, rfl, .nil, rfl, rfl⟩
  | cons q qs ih =>
    obtain ⟨hasked, hlater⟩ := h
    obtain ⟨trial, w₁, htried⟩ := Request.exists_tried hasked
    obtain ⟨hpresentable, hplaced, hrest⟩ := hlater trial w₁ htried
    obtain ⟨text, hreports, hsettle⟩ := exists_settle hpresentable hplaced t
    obtain ⟨trials, texts, w', htrials, hall, hlength, hperform⟩ := ih hrest (t.afterReport text)
    refine ⟨trial :: trials, text :: texts, w', ?_, .cons hreports hall,
      congrArg Nat.succ hlength, ?_⟩
    · rw [List.mapM_cons, Operation.runIn_bind_ok htried, Operation.runIn_bind_ok htrials]
      rfl
    · have hfirst := run_perform hasked htried t
      rw [hsettle] at hfirst
      rw [performAll, StateT.run_bind, hfirst]
      show ((t.afterReport text).performAll qs >>= _).run w₁ = _
      rw [StateT.run_bind, hperform]
      rfl

/-- The line of the exit report. -/
def summary (t : Tally) : String :=
  "\nutest ran: " ++ toString t.tests ++ "; failed: " ++ toString t.failures ++ "\n"

theorem exitReport_of_failures {t : Tally} (h : 0 < t.failures) :
    t.exitReport = (t.summary, some 1) := by
  rw [exitReport, if_pos h]
  rfl

theorem exitReport_of_none {t : Tally} (h : t.failures = 0) : t.exitReport = ("", none) := by
  rw [exitReport, if_neg (by omega)]

end Tally

/-- Some report is written just if some check does not hold. -/
theorem exists_report_iff {trials : List Trial} {reports : List String}
    (h : List.Forall₂ Trial.Reports trials reports) :
    0 < (reports.filter (· ≠ "")).length ↔ ∃ trial ∈ trials, ¬ trial.Holds := by
  induction h with
  | nil => simp
  | @cons trial text _ _ hreports _ ih =>
    rw [List.filter_cons]
    rcases hreports with ⟨hholds, rfl⟩ | ⟨hnot, hne, -⟩
    · simpa [hholds] using ih
    · simp [hnot, hne]

/--
Each check adds one to the count of checks, and none ends with an error.  A check that does not hold
adds one to the count of failures and writes one report, and a check that holds writes nothing.  In
the end both counts are reported and the exit status is forced, but only if some check failed.

All this is so where the caller in which a failure is to be placed is there.  A later check that
does not hold and that names a caller which is not there is counted as a failed one too, and ends
with an error in the place of its report.
-/
theorem checks_counted {w : World} {qs : List Request} (h : Request.Admits w qs) (t : Tally) :
    ∃ trials reports t' w', (qs.mapM Request.tried).runIn w = (.ok trials, w') ∧
      (t.performAll qs).run w = (⟨t', reports, none⟩, w') ∧
      List.Forall₂ Trial.Reports trials reports ∧
      t'.tests = t.tests + qs.length ∧
      t'.failures = t.failures + (reports.filter (· ≠ "")).length ∧
      (0 < t.failures ∨ (∃ trial ∈ trials, ¬ trial.Holds) →
        t'.exitReport = (t'.summary, some 1)) ∧
      (t.failures = 0 ∧ (∀ trial ∈ trials, trial.Holds) → t'.exitReport = ("", none)) ∧
      ∀ q trial s w'', q.WellFormed w' → q.tried.runIn w' = (.ok trial, w'') →
        trial.Presentable → ¬ trial.Holds → trial.subject = .ok s → s.Misplaced →
          (t'.perform q).run w' =
            ((⟨t'.tests + 1, t'.failures + 1⟩, .error .outOfRange), w'') := by
  obtain ⟨trials, reports, w', htrials, hall, hlength, hperform⟩ := Tally.exists_performAll h t
  have hsome := exists_report_iff hall
  have hfailures := t.failures_afterReports reports
  refine ⟨trials, reports, _, w', htrials, hperform, hall, ?_, hfailures, ?_, ?_, ?_⟩
  · rw [Tally.tests_afterReports, hlength]
  · intro hfailed
    refine Tally.exitReport_of_failures ?_
    rcases hfailed with hbefore | hnow
    · omega
    · have := hsome.mpr hnow
      omega
  · rintro ⟨hbefore, hholds⟩
    refine Tally.exitReport_of_none ?_
    have hnone : ¬ 0 < (reports.filter (· ≠ "")).length :=
      fun hlt => (hsome.mp hlt).elim fun trial htrial => htrial.2 (hholds trial htrial.1)
    omega
  · intro q trial s w'' hasked htried hpresentable hno hs hmisplaced
    exact Tally.perform_misplaced hasked htried hpresentable hno hs hmisplaced _

/-! ### Functions that raise errors -/

/-- Something to call that ends the program. -/
def Callee.leaving : Callee where
  name := "leave"
  call _ := throw ⟨.other "SystemExit" "SystemExit" .root, [.atom (.int 3)]⟩
  list _ := pure []

/-- Something to call that gives a value which refuses to be gone through. -/
def Callee.giving (v : Value) : Callee where
  name := "give"
  call _ := pure v
  list _ := throw ⟨.value, [.text "stop"]⟩

/--
A program that is ended where a value or an error is expected, and items that are refused; each is
checked by a module that nothing calls.
-/
def Request.samples : List Request :=
  [.call 1 .value (.int 1) .leaving ⟨[.text "a"], [("k", .int 2)]⟩,
    .call 1 .error (.atom (.errorClass .root)) .leaving ⟨[], []⟩,
    .call 1 .sequence (.ref 0) (.giving (.ref 0)) ⟨[], []⟩]

/-- A check by such a module that is to be placed one caller away, where there is none. -/
def Request.misplacedSample : Request :=
  .call 1 .value (.int 1) (.giving (.int 2)) ⟨[], [("_utest_depth", .int 1)]⟩

theorem Request.admits_cons {w w₁ : World} {q : Request} {qs : List Request} {trial : Trial}
    (hasked : q.WellFormed w) (htried : q.tried.runIn w = (.ok trial, w₁))
    (hpresentable : trial.Presentable) (hplaced : trial.Placed) (hrest : Admits w₁ qs) :
    Admits w (q :: qs) := by
  refine ⟨hasked, fun trial' w₂ htried' => ?_⟩
  rw [htried, Prod.mk.injEq, Except.ok.injEq] at htried'
  obtain ⟨rfl, rfl⟩ := htried'
  exact ⟨hpresentable, hplaced, hrest⟩

/-- A check that is to be placed in its own caller can be placed. -/
theorem Trial.placed_here {trial : Trial} {name : String} {args : List Term}
    {kw : List (String × Term)}
    (h : trial.subject = .ok ⟨name, args, kw, 1, .atom (.int 0)⟩) : trial.Placed := by
  intro _ s hs
  rw [h, Except.ok.injEq] at hs
  subst hs
  exact ⟨2, rfl⟩

/--
Two of three checks fail, by an error that is not expected and by one when going through.  The next
one fails as well, and ends with an error since its caller is not there.
-/
theorem checks_counted_leaving :
    let w := World.ofObjects #[.list [.int 1]]
    ∃ reports t' w', (Tally.start.performAll Request.samples).run w =
        (⟨t', reports, none⟩, w') ∧ t'.tests = 3 ∧
      t'.failures = (reports.filter (· ≠ "")).length ∧
      t'.exitReport = ("\nutest ran: 3; failed: 2\n", some 1) ∧
      ∃ w'', (t'.perform Request.misplacedSample).run w' =
        ((⟨4, 3⟩, .error .outOfRange), w'') := by
  intro w
  have hadmits : Request.Admits w Request.samples := by
    refine Request.admits_cons ⟨by decide, nofun⟩ rfl
      ⟨⟨_, rfl, ?_, ?_⟩, ⟨_, rfl⟩, ⟨_, rfl⟩⟩ (Trial.placed_here rfl) ?_
    · exact List.forall_mem_singleton.mpr ⟨_, rfl⟩
    · exact List.forall_mem_singleton.mpr ⟨_, rfl⟩
    refine Request.admits_cons ⟨List.forall_mem_nil _, nofun⟩ rfl
      ⟨⟨_, rfl, List.forall_mem_nil _, List.forall_mem_nil _⟩, ⟨_, rfl⟩, ⟨_, rfl⟩⟩
      (Trial.placed_here rfl) ?_
    refine Request.admits_cons ⟨List.forall_mem_nil _, fun _ => ⟨_, rfl⟩⟩ rfl
      ⟨⟨_, rfl, List.forall_mem_nil _, List.forall_mem_nil _⟩, ⟨_, rfl⟩, ⟨_, rfl⟩⟩
      (Trial.placed_here rfl) ?_
    exact trivial
  obtain ⟨trials, reports, t', w', -, hperform, -, htests, hfailures, -, -, hmisplaced⟩ :=
    checks_counted hadmits .start
  have hcounts : ∃ texts, (Tally.start.performAll Request.samples).run w =
      (⟨⟨3, 2⟩, texts, none⟩, w) := ⟨_, rfl⟩
  obtain ⟨texts, htexts⟩ := hcounts
  rw [hperform, Prod.mk.injEq, Progress.mk.injEq] at htexts
  obtain ⟨⟨rfl, -⟩, rfl⟩ := htexts
  refine ⟨reports, _, w, hperform, rfl, by simpa [Tally.start] using hfailures, by decide +kernel,
    w, ?_⟩
  refine hmisplaced _ _ _ w ⟨by decide, nofun⟩ rfl
    ⟨⟨_, rfl, List.forall_mem_nil _, List.forall_mem_nil _⟩, ⟨_, rfl⟩, ⟨_, rfl⟩⟩ ?_ rfl
    ⟨1, rfl, rfl⟩
  intro h
  cases h with
  | value equal => exact absurd equal (by decide +kernel)

/-! ### A caller that is not there -/

/-- A text with its special characters replaced. -/
def Callee.escaping : Callee := .ofOperation "esc" fun c => do
  match c.args with
  | [v] => return .text (← Operation.ofExcept (Html.escapeTerm (← Operation.read v)))
  | _ => Operation.fail .unsuitable

/-- A failure that is to be placed in a caller which is not there ends the check with an error. -/
theorem checks_uncounted_without_caller :
    let q := Request.call 6 .value (.int 1) .escaping
      ⟨[.text "a"], [("_utest_depth", .int 100)]⟩
    ∃ trial, (q.tried.runIn (.ofObjects #[])).1 = .ok trial ∧ ¬ trial.Holds ∧
      ((Tally.start.perform q).run (.ofObjects #[])).1 = (⟨1, 1⟩, .error .outOfRange) := by
  refine ⟨_, rfl, fun h => ?_, by decide +kernel⟩
  cases h with
  | value equal => exact absurd equal (by decide +kernel)

end Markup.Checks
