/-!
# Platform classes

The platform classes that have a written form of their own.
-/

namespace JsonBinding.Platform

/-- An object that may be missing. -/
abbrev optional : String := "java.util.Optional"

/-- An `int` that may be missing. -/
abbrev optionalInt : String := "java.util.OptionalInt"

/-- A `long` that may be missing. -/
abbrev optionalLong : String := "java.util.OptionalLong"

/-- A `double` that may be missing. -/
abbrev optionalDouble : String := "java.util.OptionalDouble"

/-- A boxed `boolean`. -/
abbrev boxedBoolean : String := "java.lang.Boolean"

/-- A boxed `char`, written as a text. -/
abbrev boxedCharacter : String := "java.lang.Character"

/-- Optionals of a primitive. -/
def primitiveOptionals : List String := [optionalInt, optionalLong, optionalDouble]

/-- Boxed primitives and the numbers of any precision. -/
def boxed : List String := [
  boxedBoolean, "java.lang.Byte", "java.lang.Short", "java.lang.Integer", "java.lang.Long",
  "java.lang.Float", "java.lang.Double", boxedCharacter, "java.math.BigDecimal",
  "java.math.BigInteger"]

/-- Dates and times. -/
def dates : List String := [
  "java.time.LocalDate", "java.time.LocalDateTime", "java.time.LocalTime",
  "java.time.OffsetDateTime", "java.time.ZonedDateTime", "java.time.Instant", "java.util.Date"]

/-- Classes written as strings. -/
def strings : List String := [
  "java.lang.String", "java.lang.CharSequence", "java.util.UUID", "java.net.URI"]

/-- Containers written as arrays. -/
def collections : List String := [
  "java.lang.Iterable", "java.util.Collection", "java.util.List", "java.util.ArrayList",
  "java.util.LinkedList", "java.util.Set", "java.util.HashSet", "java.util.LinkedHashSet",
  "java.util.SortedSet", "java.util.NavigableSet", "java.util.TreeSet", "java.util.Queue",
  "java.util.Deque", "java.util.ArrayDeque"]

/-- Containers written as objects. -/
def maps : List String := [
  "java.util.Map", "java.util.HashMap", "java.util.LinkedHashMap", "java.util.SortedMap",
  "java.util.NavigableMap", "java.util.TreeMap", "java.util.concurrent.ConcurrentMap",
  "java.util.concurrent.ConcurrentHashMap"]

end JsonBinding.Platform
