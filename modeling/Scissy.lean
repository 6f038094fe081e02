import Scissy.Interaction.Program
import Scissy.Interaction.Pool
import Scissy.Interaction.Mediation
import Scissy.Interaction.Since
import Scissy.Interaction.Lockstep
import Scissy.Interaction.Loop
import Scissy.Interaction.Machine
import Scissy.Interaction.Race
import Scissy.Interaction.Script
import Scissy.Relational.Table
import Scissy.Authority.Policy
import Scissy.Authority.Membership
import Scissy.Text.File
import Scissy.Text.Numeral
import Scissy.Text.Pattern
import Scissy.Text.KeyLine
import Scissy.Text.Quoting
import Scissy.Text.Utf8
import Scissy.Model.Message
import Scissy.Model.Database
import Scissy.Model.Statement
import Scissy.Model.World
import Scissy.Model.Migration
import Scissy.Server.Db
import Scissy.Server.Service
import Scissy.Server.View
import Scissy.Server.Http
import Scissy.Server.ArchiveUrl
import Scissy.Access.Role
import Scissy.Access.Gate
import Scissy.Access.Read
import Scissy.Access.Session
import Scissy.Access.Membership
import Scissy.Access.Row
import Scissy.Client.Shell
import Scissy.Client.Quoting
import Scissy.Client.Login
import Scissy.Client.Tarball
import Scissy.Client.AddKey
import Scissy.Server.Footprint
import Scissy.Security.Anonymous
import Scissy.Security.Escalation
import Scissy.Session.LifeCycle
import Scissy.Session.Registration
import Scissy.Session.Identity
import Scissy.Security.AuthorizedKeys
import Scissy.Security.Hidden
import Scissy.Security.Impersonation
import Scissy.Security.Confidential
import Scissy.Report.Update
import Scissy.Report.Keys
import Scissy.Storage.Disk
import Scissy.Storage.Fresh
import Scissy.Storage.Migration
import Scissy.Storage.Upgrade
import Scissy.Concurrency.Task
import Scissy.Concurrency.GroupCreate
import Scissy.Concurrency.Membership
import Scissy.Concurrency.RepoCreate
import Scissy.Concurrency.Revocation
import Scissy.Concurrency.ThreadSession
import Scissy.Report.Log
import Scissy.Report.Time
import Scissy.Report.Groups
import Scissy.Session.Expiry
import Scissy.Relational.Cursor
import Scissy.Model.Failing
import Scissy.Report.Membership
import Scissy.Report.Response
import Scissy.Security.Authorization
import Scissy.Security.Mediation
import Scissy.Client.ShellRun
import Scissy.Security.Attribution
import Scissy.Security.Directories
import Scissy.Security.Passwords
import Scissy.Security.Contents
import Scissy.Security.Strangers
import Scissy.Security.Invariants
import Scissy.Report.Acknowledgement
import Scissy.Report.Creation
import Scissy.Report.Enrolment
import Scissy.Concurrency.KeyFile
