import TidySql.Text.Ascii

/-! The words that layout knows.
Every table is in upper case, and a word is put in upper case before it is looked
up. Casing is the only part of a keyword that formatting may change. -/
namespace TidySql

inductive KeywordCase where
  | upper
  | lower
  deriving DecidableEq, Repr

namespace KeywordCase

def name : KeywordCase → String
  | upper => "upper"
  | lower => "lower"

def ofName? (s : String) : Option KeywordCase := [upper, lower].find? fun k => k.name == s

/-- Writes a keyword, given in upper case. -/
def apply : KeywordCase → List Char → List Char
  | upper, word => word
  | lower, word => Text.lower word

end KeywordCase

/-- A keyword of two words, which layout writes as one. -/
structure Compound where
  first : List Char
  second : List Char
  deriving DecidableEq, Repr

namespace Compound

/-- The words with one space between them. -/
def text (k : Compound) : List Char := k.first ++ ' ' :: k.second

def all : List Compound :=
  [("INSERT", "INTO"), ("DELETE", "FROM"), ("GROUP", "BY"), ("ORDER", "BY"), ("LEFT", "JOIN"),
   ("RIGHT", "JOIN"), ("INNER", "JOIN"), ("FULL", "JOIN"), ("CROSS", "JOIN"), ("UNION", "ALL")].map
    fun (a, b) => ⟨a.toList, b.toList⟩

/-- The keyword that two neighbouring words make, in any letter case. -/
def find? (first second : List Char) : Option Compound :=
  all.find? fun k =>
    Text.equalIgnoringCase first k.first && Text.equalIgnoringCase second k.second

end Compound

namespace Keyword

/-- The keywords that start a line and begin a clause. -/
def clauses : List (List Char) :=
  ["SELECT", "FROM", "WHERE", "GROUP BY", "ORDER BY", "HAVING", "LIMIT", "OFFSET", "INSERT INTO",
   "UPDATE", "DELETE FROM", "VALUES", "SET", "JOIN", "LEFT JOIN", "RIGHT JOIN", "INNER JOIN",
   "FULL JOIN", "CROSS JOIN", "ON", "UNION", "UNION ALL"].map String.toList

/-- The words whose letter case is set wherever they stand. -/
def reserved : List (List Char) :=
  ["SELECT", "FROM", "WHERE", "GROUP", "BY", "ORDER", "HAVING", "LIMIT", "OFFSET", "INSERT", "INTO",
   "UPDATE", "DELETE", "VALUES", "SET", "JOIN", "LEFT", "RIGHT", "INNER", "FULL", "CROSS", "ON",
   "UNION", "ALL", "AS", "AND", "OR", "IN", "IS", "NOT", "NULL", "LIKE", "BETWEEN", "EXISTS",
   "DISTINCT", "CASE", "WHEN", "THEN", "ELSE", "END", "ASC", "DESC"].map String.toList

/-- The words after which a parenthesis opens a block, such as a subquery. -/
def blockOpeners : List (List Char) :=
  ["IN", "EXISTS", "FROM", "JOIN", "ON", "WHERE", "SELECT", "VALUES", "SET", "AND", "OR"].map
    String.toList

def isClause (word : List Char) : Bool := clauses.contains word

def isReserved (word : List Char) : Bool := reserved.contains word

def isConnective (word : List Char) : Bool := word == "AND".toList || word == "OR".toList

/-- A parenthesis after this word stays on its line, as in a call. With no word
before it, it opens a block. -/
def opensInline (previous : List Char) : Bool :=
  !previous.isEmpty && !blockOpeners.contains previous

end Keyword

theorem Compound.isClause_text :
    ∀ k ∈ Compound.all, Keyword.isClause k.text = true ∧
      Keyword.isReserved k.first = true ∧ Keyword.isReserved k.second = true := by decide

theorem Keyword.isReserved_of_isClause :
    ∀ w ∈ Keyword.clauses, ' ' ∉ w → Keyword.isReserved w = true := by decide

theorem Keyword.isReserved_of_isConnective (w : List Char) (h : Keyword.isConnective w = true) :
    Keyword.isReserved w = true := by
  simp only [Keyword.isConnective, Bool.or_eq_true, beq_iff_eq] at h
  rcases h with rfl | rfl <;> decide

end TidySql
