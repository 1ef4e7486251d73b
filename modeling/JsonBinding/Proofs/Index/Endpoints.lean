import JsonBinding.Generation
import JsonBinding.Proofs.Index.Signatures

/-!
# Endpoints of an index

The endpoints of an index that is read from a document return types that are written as signatures,
so the classes in the candidates among these types have the characters of names.

* **`Index.Loaded.spelled_candidates`**: the candidates of such an index.
-/

namespace JsonBinding.Index

variable {ix : Index}

theorem Loaded.spelled (h : ix.Loaded) : ∀ e ∈ ix.endpoints, e.result.Spelled := by
  obtain ⟨doc, hdoc, -, hendpoints⟩ := h.exists_document
  rw [hendpoints]
  exact fun e he => (hdoc.endpoints e he).spelled

/-- **The candidates of an index that is read are types that signatures denote**, or elements of
such types. -/
theorem Loaded.spelled_candidates (h : ix.Loaded) {t : TypeRef} (ht : t ∈ ix.candidates.roots) :
    t.Spelled := by
  obtain ⟨e, he, ht⟩ := List.mem_filterMap.mp ht
  have hresult := h.spelled e he
  rw [Endpoint.candidate?] at ht
  split_ifs at ht
  · cases ht
    exact hresult
  · exact hresult.element? (Option.filter_eq_some_iff.mp ht).1

end JsonBinding.Index
