import Timetable.Main
import Timetable.Session
import Timetable.Proofs.Returned
import Timetable.Proofs.Tallies
import Timetable.Proofs.StudentPairs
import Timetable.Proofs.GroupMembership
import Timetable.Proofs.SharedStudents
import Timetable.Proofs.BuiltGroups
import Timetable.Proofs.InputChecks
import Timetable.Proofs.StudentClashes
import Timetable.Proofs.SeatDemands
import Timetable.Proofs.SeatEntries
import Timetable.Proofs.SeatPool
import Timetable.Proofs.SeatingSteps
import Timetable.Proofs.SeatingPasses
import Timetable.Proofs.StudentDues
import Timetable.Proofs.SuitableRooms
import Timetable.Proofs.SittingTimes
import Timetable.Proofs.RoomSharing
import Timetable.Proofs.SeatingPhases
import Timetable.Proofs.SlotRounds
import Timetable.Proofs.RoomCapacity
import Timetable.Proofs.SeatedStudents
import Timetable.Proofs.Draws
import Timetable.Proofs.Parents
import Timetable.Proofs.SearchRuns
import Timetable.Proofs.CommittedGroups
import Timetable.Proofs.CommittedSearch
import Timetable.Proofs.SeatingReplay
import Timetable.Proofs.RoomsAgain
import Timetable.Proofs.PlacedGroups
import Timetable.Proofs.Replanning
import Timetable.Proofs.RoomDuties
import Timetable.Proofs.StaffingRuns
import Timetable.Proofs.StaffExclusions
import Timetable.Proofs.StaffBalance
import Timetable.Proofs.WatchedRooms
import Timetable.Proofs.SeatReasons
import Timetable.Proofs.SeatMoves
import Timetable.Proofs.RoomsAlone
import Timetable.Proofs.PinsAgain
import Timetable.Proofs.AloneAgain
import Timetable.Proofs.PinnedStudents
import Timetable.Proofs.Commitments
import Timetable.Proofs.Roots
import Timetable.Proofs.LinkedExams
import Timetable.Proofs.GroupsRearranged
import Timetable.Proofs.SeatingUnlinked
import Timetable.Proofs.StaffUnlinked
import Timetable.Proofs.OrderIndependence
import Timetable.Proofs.Chronology
import Timetable.Proofs.ClosedRooms
import Timetable.Proofs.SeatingFrames
import Timetable.Proofs.SlotsApart
import Timetable.Proofs.SeatingReturns
import Timetable.Proofs.DoubleSigns
import Timetable.Proofs.StaffingReturns
import Timetable.Proofs.GroupClosure
import Timetable.Proofs.AgendaContents
import Timetable.Proofs.WholeRooms
import Timetable.Proofs.KeptReserves
import Timetable.Proofs.AllowedSlots
import Timetable.Proofs.ClashReports
import Timetable.Proofs.Generations
import Timetable.Proofs.FilledDomains
import Timetable.Proofs.RunBounds
import Timetable.Proofs.SureGenerations
import Timetable.Proofs.FirstFittest
import Timetable.Proofs.ExhaustedRooms
import Timetable.Proofs.PinLedger
import Timetable.Proofs.PinnedEntries
import Timetable.Proofs.HonouredPins
import Timetable.Proofs.ExactDuties
import Timetable.Proofs.DutyAccounts
import Timetable.Proofs.OpenDuties
import Timetable.Proofs.OwnRooms
import Timetable.Proofs.ScaledDurations
import Timetable.Proofs.ProblemReports
import Timetable.Proofs.Rounding
import Timetable.Proofs.DoubleSizes
import Timetable.Proofs.DutyShares
import Timetable.Proofs.JsonScans
import Timetable.Proofs.JsonTexts
import Timetable.Proofs.JsonRecords
import Timetable.Proofs.DocumentsAgain
import Timetable.Proofs.HandedRooms
import Timetable.Proofs.LeastRoots
import Timetable.Proofs.SelectedParents
import Timetable.Proofs.GenesInPlace
