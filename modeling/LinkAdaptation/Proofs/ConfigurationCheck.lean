import LinkAdaptation.Proofs.ReachableColumns

/-! The check of the ceiling table and of the search graph, and that the table
and the graph in use pass it. -/

namespace LinkAdaptation

theorem Column.spec_sound (c : Column) : SearchGraph.isSound spec .expected c = true := by
  cases c <;> decide

theorem CeilingTable.expected_check : expected.check = .ok () := by
  have hrows : (expected.rows.all (·.any (· != 0)) &&
      narrowGroups.all (expected.ceiling · (ratesPerGroup - 1) == 0)) = true := by
    decide +kernel
  simp only [check, hrows, if_true]

theorem checkConfiguration_ok : checkConfiguration = .ok () := by
  have hgraph : SearchGraph.check Column.spec .expected = .ok () :=
    (SearchGraph.check_eq_ok_iff ..).mpr fun c _ => (SearchGraph.isSound_iff ..).mp c.spec_sound
  rw [checkConfiguration, CeilingTable.expected_check, hgraph]
  rfl

end LinkAdaptation
